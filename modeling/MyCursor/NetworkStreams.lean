import MyCursor.Error
import MyCursor.Transitions

/-!
# Network streams of plugins

`stream_open` and `stream_read` of `plugin/worker.rs` with the reader `streamLines`
of `plugin/sdk/worker.ts`. A task cuts the body of a response into lines and sends
them through a bounded channel; the plugin reads what is ready in one go, and what
is ready depends on how the two take turns.
-/
namespace MyCursor.NetworkStreams
open Transitions

def newline : UInt8 := 10
def carriageReturn : UInt8 := 13

def trimEnd (line : List UInt8) : List UInt8 := if line.getLast? = some carriageReturn then line.dropLast else line
/-- The loop that takes lines from the front of the buffer. `line` is what comes
    before the next newline; what follows the last one stays. -/
def drainLines (line : List UInt8) : List UInt8 → List (List UInt8) × List UInt8
  | [] => ([],line)
  | byte :: rest =>
    if byte = newline then
      let (lines,left) := drainLines [] rest
      (trimEnd line :: lines,left)
    else drainLines (line ++ [byte]) rest

/-- The bytes are these lines, each with a newline after it, and a rest. -/
structure Cut (bytes : List UInt8) (lines : List (List UInt8)) (rest : List UInt8) : Prop where
  bytes : bytes = (lines.map (· ++ [newline])).flatten ++ rest
  lines : ∀ line ∈ lines, newline ∉ line
  rest : newline ∉ rest

theorem drainLines_cut (line : List UInt8) (open_ : newline ∉ line) (bytes : List UInt8) :
    ∃ lines, (drainLines line bytes).1 = lines.map trimEnd ∧ Cut (line ++ bytes) lines (drainLines line bytes).2 := by
  induction bytes generalizing line with
  | nil => exact ⟨[],rfl,by simp [drainLines],nofun,open_⟩
  | cons byte rest ih =>
    by_cases ends : byte = newline
    · obtain ⟨lines,taken,cut⟩ := ih [] (by simp)
      refine ⟨line :: lines,?_,?_⟩
      · simp [drainLines,ends,taken]
      · refine ⟨?_,?_,?_⟩
        · have same := cut.bytes
          simp only [List.nil_append] at same
          simp [drainLines,ends,← same]
        · intro one member
          rcases List.mem_cons.mp member with rfl | later
          · exact open_
          · exact cut.lines one later
        · simpa [drainLines,ends] using cut.rest
    · obtain ⟨lines,taken,cut⟩ := ih (line ++ [byte]) (by simpa [open_] using Ne.symm ends)
      refine ⟨lines,by simpa [drainLines,ends] using taken,?_⟩
      have whole : line ++ byte :: rest = line ++ [byte] ++ rest := by simp
      rw [whole]
      simpa [drainLines,ends] using cut
theorem Cut.append {before left : List UInt8} {lines : List (List UInt8)} (cut : Cut before lines left) (chunk : List UInt8) :
    ∃ more, (drainLines [] (left ++ chunk)).1 = more.map trimEnd ∧
      Cut (before ++ chunk) (lines ++ more) (drainLines [] (left ++ chunk)).2 := by
  obtain ⟨more,taken,next⟩ := drainLines_cut [] (by simp) (left ++ chunk)
  refine ⟨more,taken,?_,?_,next.rest⟩
  · have same : left ++ chunk = (more.map (· ++ [newline])).flatten ++ (drainLines [] (left ++ chunk)).2 := next.bytes
    calc before ++ chunk
      _ = (lines.map (· ++ [newline])).flatten ++ (left ++ chunk) := by rw [cut.bytes,List.append_assoc]
      _ = (lines.map (· ++ [newline])).flatten ++
          ((more.map (· ++ [newline])).flatten ++ (drainLines [] (left ++ chunk)).2) := congrArg _ same
      _ = _ := by simp only [List.map_append,List.flatten_append,List.append_assoc]
  · intro line member
    rcases List.mem_append.mp member with first | second
    · exact cut.lines line first
    · exact next.lines line second

/-! ## The task and the channel -/

def MAX_STREAM_BYTES : Nat := 256 * 1024 * 1024
def CHANNEL_CAPACITY : Nat := 256

/-- What the task gets next. The recorder may fail on a chunk. -/
inductive BodyEvent where
  | Chunk (bytes : List UInt8) (recorder : Option Error)
  | End
  | Failed (error : Error)
  | Cancelled
deriving DecidableEq

inductive Ending where
  | Open
  | Regular
  | Broken (error : Error)
deriving DecidableEq

abbrev Item := Except Error String

/-- `outbox` is what the task has still to send before it goes on. `reading` are the
    lines that the read in progress has taken, and `returned` those of the reads
    before. `received` are the bytes that went into the buffer. -/
structure Stream where
  buffered : List UInt8 := []
  total : Nat := 0
  outbox : List Item := []
  channel : List Item := []
  reading : Option (List String) := none
  returned : List (List String) := []
  outcome : Option (Except Error Unit) := none
  received : List UInt8 := []
  ending : Ending := .Open

def Stream.break (s : Stream) (error : Error) : Stream := { s with outbox := [.error error], ending := .Broken error }

section Streams
variable (from_utf8_lossy : List UInt8 → String)

def chunk (s : Stream) (bytes : List UInt8) (recorder : Option Error) : Stream :=
  let total := s.total + bytes.length
  if total > MAX_STREAM_BYTES then s.break (.Provider "plugin network stream is larger than allowed")
  else
    match recorder with
    | some error => s.break error
    | none =>
      let (lines,left) := drainLines [] (s.buffered ++ bytes)
      { s with
        total
        buffered := left
        outbox := lines.map fun line => .ok (from_utf8_lossy line)
        received := s.received ++ bytes }
def advance (s : Stream) : BodyEvent → Stream
  | .Chunk bytes recorder => chunk from_utf8_lossy s bytes recorder
  | .End =>
    { s with
      outbox := if s.buffered = [] then [] else [.ok (from_utf8_lossy s.buffered)]
      ending := .Regular }
  | .Failed error => s.break error
  | .Cancelled => s.break .Cancelled

def give (s : Stream) (lines : List String) : Stream := { s with reading := none, returned := s.returned ++ [lines] }
def fail (s : Stream) (error : Error) : Stream := { s with reading := none, outcome := some (.error error) }
def done (s : Stream) : Stream := { s with reading := none, outcome := some (.ok ()) }

/-- A read that has no line waits for one; one that has a line takes what is ready. -/
def takeNext (s : Stream) (lines : List String) : Stream :=
  if lines = [] then
    match s.channel with
    | .ok line :: rest => { s with channel := rest, reading := some [line] }
    | .error error :: rest => fail { s with channel := rest } error
    | [] => if s.outbox = [] ∧ s.ending ≠ .Open then done s else s
  else if lines.length < 256 then
    match s.channel with
    | .ok line :: rest => { s with channel := rest, reading := some (lines ++ [line]) }
    | .error error :: rest => fail { s with channel := rest } error
    | [] => give s lines
  else give s lines

inductive Action where
  | body (event : BodyEvent)
  | send
  | read
  | take
deriving DecidableEq

def step (s : Stream) : Action → Stream
  | .body event =>
    if s.outbox = [] ∧ s.ending = .Open ∧ s.outcome = none then advance from_utf8_lossy s event else s
  | .send =>
    match s.outbox with
    | item :: rest => if s.channel.length < CHANNEL_CAPACITY then { s with outbox := rest, channel := s.channel ++ [item] } else s
    | [] => s
  | .read => if s.reading = none ∧ s.outcome = none then { s with reading := some [] } else s
  | .take =>
    match s.reading with
    | some lines => takeNext s lines
    | none => s

def produced (ending : Ending) (lines : List (List UInt8)) (rest : List UInt8) : List String :=
  (lines.map fun line => from_utf8_lossy (trimEnd line)) ++ if ending = .Regular ∧ rest ≠ [] then [from_utf8_lossy rest] else []
def endingOf : Except Error Unit → Ending
  | .ok () => .Regular
  | .error error => .Broken error

/-- The reads return the lines that were received, each once and in order; where
    the last read reports the end or a failure, all of them were returned. -/
def Delivers (s : Stream) : Prop :=
  ∃ lines rest, Cut s.received lines rest ∧ s.returned.flatten <+: produced from_utf8_lossy s.ending lines rest ∧
    ∀ result, s.outcome = some result → s.returned.flatten = produced from_utf8_lossy s.ending lines rest ∧ s.ending = endingOf result

def failsNext : List Item → Bool
  | .error _ :: _ => true
  | _ => false
/-- A read that has taken lines does not find a failure behind them. -/
def Allowed (s : Stream) (action : Action) : Prop :=
  action = .take → failsNext s.channel = true → s.reading.getD [] = [] ∨ 256 ≤ (s.reading.getD []).length
instance (s : Stream) (action : Action) : Decidable (Allowed s action) :=
  inferInstanceAs (Decidable (action = .take → failsNext s.channel = true → s.reading.getD [] = [] ∨ 256 ≤ (s.reading.getD []).length))

def failure : Ending → List Item
  | .Broken error => [.error error]
  | _ => []

/-- Each line was returned, or the read has it, or it is on the way. -/
structure Conserved (s : Stream) (lines : List (List UInt8)) (waiting : List String) : Prop where
  cut : Cut s.received lines s.buffered
  queue : s.channel ++ s.outbox = waiting.map .ok ++ failure s.ending
  lines : s.returned.flatten ++ s.reading.getD [] ++ waiting = produced from_utf8_lossy s.ending lines s.buffered
structure Over (s : Stream) (lines : List (List UInt8)) (result : Except Error Unit) : Prop where
  outcome : s.outcome = some result
  idle : s.reading = none
  cut : Cut s.received lines s.buffered
  lines : s.returned.flatten = produced from_utf8_lossy s.ending lines s.buffered
  ending : s.ending = endingOf result
def Inv (s : Stream) : Prop :=
  (s.outcome = none ∧ ∃ lines waiting, Conserved from_utf8_lossy s lines waiting) ∨ ∃ lines result, Over from_utf8_lossy s lines result

variable {from_utf8_lossy} {s : Stream} {lines : List (List UInt8)} {waiting : List String}

theorem produced_open (rest : List UInt8) :
    produced from_utf8_lossy .Open lines rest = lines.map fun line => from_utf8_lossy (trimEnd line) := by
  simp [produced]
theorem produced_broken (error : Error) (rest : List UInt8) :
    produced from_utf8_lossy (.Broken error) lines rest = lines.map fun line => from_utf8_lossy (trimEnd line) := by
  simp [produced]

section
variable (conserved : Conserved from_utf8_lossy s lines waiting)
include conserved

theorem Conserved.break (isOpen : s.ending = .Open) (sent : s.outbox = [])
    (error : Error) : Conserved from_utf8_lossy (s.break error) lines waiting := by
  obtain ⟨cut,queue,all⟩ := conserved
  rw [isOpen,sent] at queue
  rw [isOpen,produced_open] at all
  refine ⟨cut,?_,?_⟩
  · show s.channel ++ [.error error] = waiting.map .ok ++ [.error error]
    rw [show s.channel = waiting.map .ok by simpa [failure] using queue]
  · show s.returned.flatten ++ s.reading.getD [] ++ waiting = produced from_utf8_lossy (.Broken error) lines s.buffered
    rw [produced_broken,all]
theorem Conserved.chunk (isOpen : s.ending = .Open) (sent : s.outbox = []) (bytes : List UInt8) (recorder : Option Error) :
    ∃ lines waiting, Conserved from_utf8_lossy (chunk from_utf8_lossy s bytes recorder) lines waiting := by
  unfold NetworkStreams.chunk
  dsimp only
  split_ifs with large
  · exact ⟨lines,waiting,conserved.break isOpen sent _⟩
  · cases recorder with
    | some error => exact ⟨lines,waiting,conserved.break isOpen sent error⟩
    | none =>
      obtain ⟨more,taken,cut⟩ := conserved.cut.append bytes
      have queue := conserved.queue
      have all := conserved.lines
      rw [isOpen,sent] at queue
      rw [isOpen,produced_open] at all
      refine ⟨lines ++ more,waiting ++ more.map (fun line => from_utf8_lossy (trimEnd line)),cut,?_,?_⟩
      · show s.channel ++ (drainLines [] (s.buffered ++ bytes)).1.map (fun line => .ok (from_utf8_lossy line)) = _ ++ failure s.ending
        rw [taken,isOpen,show s.channel = waiting.map .ok by simpa [failure] using queue]
        simp [failure]
      · show s.returned.flatten ++ s.reading.getD [] ++ (waiting ++ _) =
          produced from_utf8_lossy s.ending (lines ++ more) (drainLines [] (s.buffered ++ bytes)).2
        rw [isOpen,produced_open,List.map_append,← all,List.append_assoc,List.append_assoc,List.append_assoc]
theorem Conserved.advance (isOpen : s.ending = .Open) (sent : s.outbox = [])
    (event : BodyEvent) : ∃ lines waiting, Conserved from_utf8_lossy (advance from_utf8_lossy s event) lines waiting := by
  cases event with
  | Chunk bytes recorder => exact conserved.chunk isOpen sent bytes recorder
  | Failed error => exact ⟨lines,waiting,conserved.break isOpen sent error⟩
  | Cancelled => exact ⟨lines,waiting,conserved.break isOpen sent .Cancelled⟩
  | End =>
    have queue := conserved.queue
    have all := conserved.lines
    rw [isOpen,sent] at queue
    rw [isOpen,produced_open] at all
    have sentAll : s.channel = waiting.map .ok := by simpa [failure] using queue
    unfold NetworkStreams.advance
    by_cases empty : s.buffered = []
    · refine ⟨lines,waiting,conserved.cut,?_,?_⟩
      · simp [empty,sentAll,failure]
      · simpa [produced,empty] using all
    · refine ⟨lines,waiting ++ [from_utf8_lossy s.buffered],conserved.cut,?_,?_⟩
      · simp [empty,sentAll,failure]
      · simp only [produced,empty,ne_eq,not_false_eq_true,and_self,if_true]
        rw [← all,List.append_assoc,List.append_assoc,List.append_assoc]

end

variable {taken : List String}

section
variable (conserved : Conserved from_utf8_lossy s lines waiting)
include conserved

theorem Conserved.take_line {line : String} {rest : List Item}
    (isReading : s.reading = some taken) (isNext : s.channel = .ok line :: rest) :
    ∃ waiting, Conserved from_utf8_lossy { s with channel := rest, reading := some (taken ++ [line]) } lines waiting := by
  obtain ⟨cut,queue,all⟩ := conserved
  rw [isNext,List.cons_append] at queue
  rw [isReading] at all
  cases waiting with
  | nil =>
    rw [List.map_nil,List.nil_append] at queue
    cases ending : s.ending <;> rw [ending] at queue <;> simp [failure] at queue
  | cons first later =>
    obtain ⟨same,others⟩ := List.cons.inj queue
    obtain rfl : line = first := by simpa using same
    exact ⟨later,cut,others,by simpa using all⟩
theorem Conserved.take_failure {error : Error} {rest : List Item}
    (isNext : s.channel = .error error :: rest) : waiting = [] ∧ s.ending = .Broken error := by
  have queue := conserved.queue
  rw [isNext,List.cons_append] at queue
  cases waiting with
  | nil =>
    refine ⟨rfl,?_⟩
    cases ending : s.ending <;> rw [ending] at queue <;> simp [failure] at queue
    rw [queue.1]
  | cons first later =>
    simp at queue
theorem Conserved.give (isReading : s.reading = some taken) : Conserved from_utf8_lossy (give s taken) lines waiting := by
  obtain ⟨cut,queue,all⟩ := conserved
  refine ⟨cut,queue,?_⟩
  show (s.returned ++ [taken]).flatten ++ [] ++ waiting = produced from_utf8_lossy s.ending lines s.buffered
  rw [isReading] at all
  simpa using all

end
theorem Conserved.all_returned (conserved : Conserved from_utf8_lossy s lines []) (isReading : s.reading = some []) :
    s.returned.flatten = produced from_utf8_lossy s.ending lines s.buffered := by
  have all := conserved.lines
  rw [isReading] at all
  simpa using all

theorem Inv.take (running : s.outcome = none) (conserved : Conserved from_utf8_lossy s lines waiting) (isReading : s.reading = some taken)
    (allowed : failsNext s.channel = true → taken = [] ∨ 256 ≤ taken.length) :
    Inv from_utf8_lossy (takeNext s taken) := by
  unfold takeNext
  by_cases empty : taken = []
  · rw [if_pos empty]
    subst empty
    cases isNext : s.channel with
    | cons item rest =>
      cases item with
      | ok line =>
        obtain ⟨later,next⟩ := conserved.take_line isReading isNext
        exact .inl ⟨running,lines,later,next⟩
      | error error =>
        obtain ⟨rfl,isBroken⟩ := conserved.take_failure isNext
        exact .inr ⟨lines,.error error,rfl,rfl,conserved.cut,conserved.all_returned isReading,isBroken⟩
    | nil =>
      dsimp only
      split_ifs with closed
      · obtain ⟨sent,ended⟩ := closed
        have queue := conserved.queue
        rw [isNext,sent,List.nil_append] at queue
        obtain ⟨none,noFailure⟩ := List.append_eq_nil_iff.mp queue.symm
        obtain rfl : waiting = [] := List.map_eq_nil_iff.mp none
        have isRegular : s.ending = .Regular := by
          cases ending : s.ending with
          | Open => exact absurd ending ended
          | Regular => rfl
          | Broken error =>
            rw [ending] at noFailure
            cases noFailure
        exact .inr ⟨lines,.ok (),rfl,rfl,conserved.cut,conserved.all_returned isReading,isRegular⟩
      · exact .inl ⟨running,lines,waiting,conserved⟩
  · rw [if_neg empty]
    by_cases room : taken.length < 256
    · rw [if_pos room]
      cases isNext : s.channel with
      | cons item rest =>
        cases item with
        | ok line =>
          obtain ⟨later,next⟩ := conserved.take_line isReading isNext
          exact .inl ⟨running,lines,later,next⟩
        | error error =>
          rcases allowed (by rw [isNext]; rfl) with none | full
          · exact absurd none empty
          · omega
      | nil => exact .inl ⟨running,lines,waiting,conserved.give isReading⟩
    · rw [if_neg room]
      exact .inl ⟨running,lines,waiting,conserved.give isReading⟩

theorem Inv.step (inv : Inv from_utf8_lossy s) {action : Action} (allowed : Allowed s action) :
    Inv from_utf8_lossy (step from_utf8_lossy s action) := by
  rcases inv with ⟨running,lines,waiting,conserved⟩ | ⟨lines,result,finished⟩
  · cases action with
    | body event =>
      rw [NetworkStreams.step]
      split_ifs with ready
      · have still : (NetworkStreams.advance from_utf8_lossy s event).outcome = none := by
          cases event with
          | Chunk bytes recorder =>
            unfold NetworkStreams.advance NetworkStreams.chunk
            dsimp only
            split_ifs
            · exact running
            · cases recorder <;> exact running
          | End | Failed _ | Cancelled => exact running
        exact .inl ⟨still,conserved.advance ready.2.1 ready.1 event⟩
      · exact .inl ⟨running,lines,waiting,conserved⟩
    | send =>
      rw [NetworkStreams.step]
      cases isNext : s.outbox with
      | nil => exact .inl ⟨running,lines,waiting,conserved⟩
      | cons item rest =>
        dsimp only
        split_ifs
        · refine .inl ⟨running,lines,waiting,conserved.cut,?_,conserved.lines⟩
          show s.channel ++ [item] ++ rest = _
          rw [List.append_assoc,List.singleton_append,← isNext,conserved.queue]
        · exact .inl ⟨running,lines,waiting,conserved⟩
    | read =>
      rw [NetworkStreams.step]
      split_ifs with ready
      · refine .inl ⟨running,lines,waiting,conserved.cut,conserved.queue,?_⟩
        simpa [ready.1] using conserved.lines
      · exact .inl ⟨running,lines,waiting,conserved⟩
    | take =>
      rw [NetworkStreams.step]
      cases isReading : s.reading with
      | none => exact .inl ⟨running,lines,waiting,conserved⟩
      | some taken => exact Inv.take running conserved isReading (by simpa [isReading] using allowed rfl)
  · have ended : s.outcome ≠ none := by simp [finished.outcome]
    refine .inr ⟨lines,result,?_⟩
    cases action with
    | body event =>
      rw [NetworkStreams.step,if_neg (fun ready => ended ready.2.2)]
      exact finished
    | send =>
      rw [NetworkStreams.step]
      split
      · split_ifs
        · exact ⟨finished.outcome,finished.idle,finished.cut,finished.lines,finished.ending⟩
        · exact finished
      · exact finished
    | read =>
      rw [NetworkStreams.step,if_neg (fun ready => ended ready.2)]
      exact finished
    | take =>
      rw [NetworkStreams.step,finished.idle]
      exact finished

theorem Inv.delivers (inv : Inv from_utf8_lossy s) : Delivers from_utf8_lossy s := by
  rcases inv with ⟨running,lines,waiting,conserved⟩ | ⟨lines,result,finished⟩
  · refine ⟨lines,s.buffered,conserved.cut,⟨s.reading.getD [] ++ waiting,?_⟩,?_⟩
    · rw [← conserved.lines,List.append_assoc]
    · intro result isOver
      rw [running] at isOver
      cases isOver
  · refine ⟨lines,s.buffered,finished.cut,finished.lines ▸ List.prefix_refl _,?_⟩
    intro other isOver
    rw [finished.outcome] at isOver
    obtain rfl := Option.some.inj isOver
    exact ⟨finished.lines,finished.ending⟩

/-- Where no read finds a failure behind its lines, no line is lost. -/
theorem no_line_lost (actions : List Action) (meets : Meets (step from_utf8_lossy) Allowed {} actions) :
    Delivers from_utf8_lossy (after (step from_utf8_lossy) {} actions) := by
  refine Inv.delivers (meets.invariant ?_ fun s action inv allowed => inv.step allowed)
  exact .inl ⟨rfl,[],[],⟨by simp,nofun,by simp⟩,rfl,rfl⟩

end Streams

def ascii (bytes : List UInt8) : String := String.ofList (bytes.map fun byte => Char.ofNat byte.toNat)
/-- A line and the end of the connection come before the first read. -/
def cutShort : List Action :=
  [.body (.Chunk [97,13,10] none),.send,.body (.Failed (.Http "connection reset")),.send,.read,.take,.take]

theorem line_lost : (after (step ascii) {} cutShort).returned = [] ∧
      (after (step ascii) {} cutShort).outcome = some (.error (.Http "connection reset")) ∧
      Cut (after (step ascii) {} cutShort).received [[97,13]] [] ∧
      ¬ Delivers ascii (after (step ascii) {} cutShort) := by
  have returned : (after (step ascii) {} cutShort).returned = [] := by decide +kernel
  have outcome : (after (step ascii) {} cutShort).outcome = some (.error (.Http "connection reset")) := by decide +kernel
  have received : (after (step ascii) {} cutShort).received = [97,13,10] := by decide +kernel
  refine ⟨returned,outcome,?_,?_⟩
  · rw [received]
    exact ⟨rfl,by decide,by decide⟩
  · rintro ⟨lines,rest,cut,_,complete⟩
    have all := (complete _ outcome).1
    rw [returned] at all
    obtain rfl : lines = [] := List.map_eq_nil_iff.mp (List.append_eq_nil_iff.mp all.symm).1
    have whole := cut.bytes
    rw [received] at whole
    apply cut.rest
    rw [show rest = [97,13,10] from whole.symm]
    decide

theorem no_line_lost_read :
    Delivers ascii (after (step ascii) {} [.body (.Chunk [97,13,10,98] none),.send,.read,.take,.take,.body .End,.send,.read,.take,.take,
      .read,.take]) :=
  no_line_lost _ (by decide +kernel)

end MyCursor.NetworkStreams
