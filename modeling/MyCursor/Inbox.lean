import Mathlib.Algebra.Order.Ring.Int
import Mathlib.Data.List.AList

/-!
# Ordered delivery of client messages

`OrderedInbox` of `cursor/transport/inbox.rs`: client messages arrive with
sequence numbers in any order and leave in consecutive order, each once.
-/
namespace MyCursor.Inbox

variable {T : Type}

/-- `i64::MAX`. -/
def i64Max : Int := 2 ^ 63 - 1
/-- `i64::saturating_add`. -/
def saturating_add (left right : Int) : Int := max (-(2 ^ 63)) (min i64Max (left + right))

/-- The next number to deliver and the messages waiting for an earlier one. -/
structure OrderedInbox (T : Type) where
  next : Int
  pending : AList (fun _ : Int => T)

def starting_at (next : Int) : OrderedInbox T := ⟨next,∅⟩

/-- The `while let` loop of `push`. Every turn removes a waiting message, so
    the number of waiting messages bounds the turns. -/
def drain : Nat → OrderedInbox T → List (Int × T) × OrderedInbox T
  | 0, inbox => ([],inbox)
  | turns + 1, inbox =>
    match inbox.pending.lookup inbox.next with
    | none => ([],inbox)
    | some value =>
      let (ready,after) := drain turns ⟨saturating_add inbox.next 1,inbox.pending.erase inbox.next⟩
      ((inbox.next,value) :: ready,after)

/-- A number already delivered or already waiting is dropped. -/
def push (inbox : OrderedInbox T) (seqno : Int) (value : T) : List (Int × T) × OrderedInbox T :=
  if seqno < inbox.next ∨ seqno ∈ inbox.pending then ([],inbox) else
    let inserted := inbox.pending.insert seqno value
    drain inserted.entries.length ⟨inbox.next,inserted⟩

/-- The batches returned by a sequence of pushes, with the final inbox. -/
def pushAll (inbox : OrderedInbox T) : List (Int × T) → List (List (Int × T)) × OrderedInbox T
  | [] => ([],inbox)
  | (seqno,value) :: rest =>
    let (batch,after) := push inbox seqno value
    let (batches,final) := pushAll after rest
    (batch :: batches,final)

/-- All messages delivered by a sequence of pushes, in order. -/
def delivered (start : Int) (pushes : List (Int × T)) : List (Int × T) :=
  (pushAll (starting_at start) pushes).1.flatten

/-- The numbers `start`, `start + 1`, ... up to the given count. -/
def consecutive (start : Int) (count : Nat) : List Int := (List.range count).map (fun i : Nat => start + i)

theorem consecutive_succ (start : Int) (count : Nat) : consecutive start (count + 1) = consecutive start count ++ [start + count] := by
  simp [consecutive,List.range_succ]
theorem consecutive_nodup (start : Int) (count : Nat) : (consecutive start count).Nodup :=
  List.Nodup.map (fun _ _ equal => by omega) List.nodup_range

theorem saturating_add_one {n : Int} (low : -(2 ^ 63) ≤ n + 1) (high : n < i64Max) : saturating_add n 1 = n + 1 := by
  simp only [saturating_add,i64Max] at *
  omega

/-! ## The invariant of a sequence of pushes -/

/-- What holds inside `push`, between turns of its loop: `out` was delivered
    so far for the pushes `done`. -/
structure Draining (start : Int) (done out : List (Int × T)) (inbox : OrderedInbox T) : Prop where
  next : inbox.next = start + out.length
  numbers : out.map Prod.fst = consecutive start out.length
  values : ∀ p ∈ out, done.lookup p.1 = some p.2
  waiting : ∀ k v, inbox.pending.lookup k = some v → done.lookup k = some v
  kept : ∀ k ∈ done.map Prod.fst, inbox.next ≤ k → k ∈ inbox.pending
  ahead : ∀ k ∈ inbox.pending, inbox.next ≤ k ∧ k < i64Max

/-- Between pushes, moreover, the next number is not waiting. -/
structure Settled (start : Int) (done out : List (Int × T)) (inbox : OrderedInbox T) : Prop
    extends Draining start done out inbox where
  maximal : inbox.next ∉ inbox.pending

variable {start : Int} {done : List (Int × T)}

variable {out : List (Int × T)} {inbox : OrderedInbox T}

theorem Settled.not_pushed (settled : Settled start done out inbox) : start + out.length ∉ done.map Prod.fst := by
  intro pushed
  rw [← settled.next] at pushed
  exact settled.maximal (settled.kept _ pushed (Int.le_refl _))

variable {k : Int}

theorem lookup_append_of_some {v : T} (found : done.lookup k = some v) (more : List (Int × T)) : (done ++ more).lookup k = some v := by
  simp [List.lookup_append,found]
theorem lookup_none_of_not_mem (absent : k ∉ done.map Prod.fst) : done.lookup k = none := by
  rw [List.lookup_eq_none_iff]
  intro p member
  rw [bne_iff_ne]
  rintro rfl
  exact absent (List.mem_map_of_mem member)

theorem Draining.deliver {value : T}
    (startLow : -(2 ^ 63) ≤ start) (draining : Draining start done out inbox) (found : inbox.pending.lookup inbox.next = some value) :
    Draining start done (out ++ [(inbox.next,value)])
      ⟨saturating_add inbox.next 1,inbox.pending.erase inbox.next⟩ := by
  have present : inbox.next ∈ inbox.pending := AList.lookup_isSome.mp (by simp [found])
  have advanced : saturating_add inbox.next 1 = inbox.next + 1 := by
    have position := draining.next
    exact saturating_add_one (by omega) (draining.ahead _ present).2
  refine ⟨?_,?_,?_,?_,?_,?_⟩
  · have position := draining.next
    simp only [advanced,List.length_append,List.length_singleton]
    omega
  · rw [List.map_append,draining.numbers,List.length_append,List.length_singleton,consecutive_succ,draining.next]
    rfl
  · intro p member
    rcases List.mem_append.mp member with earlier | last
    · exact draining.values p earlier
    · rw [List.mem_singleton] at last
      subst last
      exact draining.waiting _ _ found
  · intro k v waits
    by_cases same : k = inbox.next
    · subst same
      simp at waits
    · rw [AList.lookup_erase_ne same] at waits
      exact draining.waiting k v waits
  · intro k pushed bound
    simp only [advanced] at bound
    have other : k ≠ inbox.next := by omega
    exact AList.mem_erase.mpr ⟨other,draining.kept k pushed (by omega)⟩
  · intro k member
    obtain ⟨other,member⟩ := AList.mem_erase.mp member
    have bounds := draining.ahead k member
    refine ⟨?_,bounds.2⟩
    simp only [advanced]
    omega

theorem erase_length_lt {pending : AList (fun _ : Int => T)} (present : k ∈ pending) :
    (pending.erase k).entries.length < pending.entries.length := by
  have shorter := congrArg List.length (AList.keys_erase k pending)
  rw [List.length_erase_of_mem (AList.mem_keys.mp present)] at shorter
  have nonempty := List.length_pos_of_mem (AList.mem_keys.mp present)
  simp only [AList.keys,List.keys,List.length_map] at shorter nonempty
  omega

theorem drain_settled (startLow : -(2 ^ 63) ≤ start) (turns : Nat) :
    ∀ (out : List (Int × T)) (inbox : OrderedInbox T), Draining start done out inbox → inbox.pending.entries.length ≤ turns →
      Settled start done (out ++ (drain turns inbox).1) (drain turns inbox).2 := by
  induction turns with
  | zero =>
    intro out inbox draining enough
    have empty : inbox.pending.entries = [] := List.length_eq_zero_iff.mp (by omega)
    refine ⟨by simpa [drain] using draining,?_⟩
    simp [drain,AList.mem_keys,AList.keys,empty]
  | succ turns ih =>
    intro out inbox draining enough
    cases found : inbox.pending.lookup inbox.next with
    | none =>
      refine ⟨by simpa [drain,found] using draining,?_⟩
      simpa [drain,found] using AList.lookup_eq_none.mp found
    | some value =>
      have present : inbox.next ∈ inbox.pending := AList.lookup_isSome.mp (by simp [found])
      have shorter := erase_length_lt present
      have rest := ih _ _ (draining.deliver startLow found) (by simp only; omega)
      simpa [drain,found] using rest

theorem push_settled {seqno : Int} (value : T)
    (startLow : -(2 ^ 63) ≤ start) (below : seqno < i64Max) (settled : Settled start done out inbox) :
    Settled start (done ++ [(seqno,value)]) (out ++ (push inbox seqno value).1) (push inbox seqno value).2 := by
  have values : ∀ p ∈ out, (done ++ [(seqno,value)]).lookup p.1 = some p.2 := fun p member =>
    lookup_append_of_some (settled.values p member) _
  unfold push
  split_ifs with dropped
  · -- A repeated number leaves the inbox alone; its first push is still the one that counts.
    simp only [List.append_nil]
    refine ⟨⟨settled.next,settled.numbers,values,?_,?_,settled.ahead⟩,settled.maximal⟩
    · intro k v waits
      exact lookup_append_of_some (settled.waiting k v waits) _
    · intro k pushed bound
      rw [List.map_append,List.mem_append] at pushed
      rcases pushed with earlier | last
      · exact settled.kept k earlier bound
      · simp only [List.map_cons,List.map_nil,List.mem_singleton] at last
        subst last
        rcases dropped with late | waiting
        · omega
        · exact waiting
  · rw [not_or] at dropped
    obtain ⟨ahead,fresh⟩ := dropped
    have unseen : seqno ∉ done.map Prod.fst := fun pushed => fresh (settled.kept seqno pushed (by omega))
    refine drain_settled startLow _ out ⟨inbox.next,_⟩ ?_ le_rfl
    refine ⟨settled.next,settled.numbers,values,?_,?_,?_⟩
    · intro k v waits
      by_cases same : k = seqno
      · subst same
        rw [AList.lookup_insert] at waits
        simp [List.lookup_append,lookup_none_of_not_mem unseen,Option.some_inj.mp waits]
      · rw [AList.lookup_insert_ne same] at waits
        exact lookup_append_of_some (settled.waiting k v waits) _
    · intro k pushed bound
      rw [AList.mem_insert]
      rw [List.map_append,List.mem_append] at pushed
      rcases pushed with earlier | last
      · exact .inr (settled.kept k earlier bound)
      · exact .inl (by simpa using last)
    · intro k member
      rcases (AList.mem_insert _).mp member with same | earlier
      · subst same
        exact ⟨by simpa using ahead,below⟩
      · exact settled.ahead k earlier

theorem pushAll_append (first second : List (Int × T)) : ∀ inbox : OrderedInbox T, (pushAll inbox (first ++ second)).1 =
      (pushAll inbox first).1 ++ (pushAll (pushAll inbox first).2 second).1 := by
  induction first with
  | nil => intro inbox; simp [pushAll]
  | cons p rest ih => intro inbox; simp [pushAll,ih]

theorem pushAll_settled (startLow : -(2 ^ 63) ≤ start) (pushes : List (Int × T)) :
    ∀ (done out : List (Int × T)) (inbox : OrderedInbox T), (∀ p ∈ pushes, p.1 < i64Max) → Settled start done out inbox →
      Settled start (done ++ pushes) (out ++ (pushAll inbox pushes).1.flatten) (pushAll inbox pushes).2 := by
  induction pushes with
  | nil =>
    intro done out inbox _ settled
    simpa [pushAll] using settled
  | cons p rest ih =>
    obtain ⟨seqno,value⟩ := p
    intro done out inbox below settled
    have first := push_settled value startLow (below (seqno,value) (by simp)) settled
    have later := ih _ _ _ (fun p member => below p (List.mem_cons_of_mem _ member)) first
    simpa [pushAll,List.append_assoc] using later

theorem starting_at_settled (start : Int) : Settled (T := T) start [] [] (starting_at start) := by
  refine ⟨⟨by simp [starting_at],by simp [consecutive],by simp,by simp [starting_at],by simp,by simp [starting_at]⟩,?_⟩
  simp [starting_at]

/-- What the transport relies on: the delivered messages have consecutive
    numbers from the start, each once and with the value of its first push;
    and after every push the next expected number has not been pushed yet. -/
structure InOrder (start : Int) (pushes : List (Int × T)) : Prop where
  numbers : (delivered start pushes).map Prod.fst = consecutive start (delivered start pushes).length
  once : ((delivered start pushes).map Prod.fst).Nodup
  firstValue : ∀ p ∈ delivered start pushes, pushes.lookup p.1 = some p.2
  extends_earlier : ∀ done rest, pushes = done ++ rest → delivered start done <+: delivered start pushes
  maximal : ∀ done rest, pushes = done ++ rest → start + (delivered start done).length ∉ done.map Prod.fst

/-- Any pushes in any order, with gaps filled late and duplicates of delivered
    and of waiting numbers, are delivered in order. -/
theorem delivered_in_order (start : Int) (startLow : -(2 ^ 63) ≤ start) (pushes : List (Int × T))
    (below : ∀ p ∈ pushes, p.1 < i64Max) : InOrder start pushes := by
  have reached : ∀ done : List (Int × T), (∀ p ∈ done, p.1 < i64Max) →
      Settled start done (delivered start done) (pushAll (starting_at start) done).2 := by
    intro done below
    simpa [delivered] using pushAll_settled startLow done [] [] (starting_at start) below (starting_at_settled start)
  have settled := reached pushes below
  refine ⟨settled.numbers,?_,settled.values,?_,?_⟩
  · rw [settled.numbers]
    exact consecutive_nodup _ _
  · rintro done rest rfl
    simp only [delivered,pushAll_append,List.flatten_append]
    exact List.prefix_append _ _
  · rintro done rest rfl
    exact (reached done fun p member => below p (List.mem_append_left _ member)).not_pushed

/-- A gap filled late, with a duplicate of a waiting number and one of a
    delivered number. -/
theorem delivered_in_order_late_gap : delivered 5 [(7,"c"),(6,"b"),(7,"x"),(5,"a"),(6,"y")] = [(5,"a"),(6,"b"),(7,"c")] ∧
      InOrder 5 [(7,"c"),(6,"b"),(7,"x"),(5,"a"),(6,"y")] :=
  ⟨by decide,delivered_in_order 5 (by decide) _ (by decide)⟩

end MyCursor.Inbox
