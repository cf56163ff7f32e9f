import Mathlib.Algebra.Order.Ring.Int
import MyCursor.Error
import Mathlib.Data.List.Basic

/-!
# Connect framing

`cursor/protocol/connect.rs` and the incremental observer of
`api/cursor/run_sse.rs`. A frame is a flag byte, the payload length as four
big-endian bytes, and the payload. `decode_frames` reads a whole buffer;
`ConnectCompletion` watches a stream in chunks for the end of its last frame.
-/
namespace MyCursor.Connect

def END_STREAM_FLAG : UInt8 := 0x02

/-- `put_u32`: the low 32 bits, most significant byte first. -/
def put_u32 (n : Nat) : List UInt8 :=
  [UInt8.ofNat (n / 2 ^ 24),UInt8.ofNat (n / 2 ^ 16),UInt8.ofNat (n / 2 ^ 8),UInt8.ofNat n]
/-- `u32::from_be_bytes`. -/
def from_be_bytes (a b c d : UInt8) : Nat := 2 ^ 24 * a.toNat + 2 ^ 16 * b.toNat + 2 ^ 8 * c.toNat + d.toNat

/-- The envelope that `encode_message` and `encode_end_stream_payload` share. -/
def encode_frame (flags : UInt8) (payload : List UInt8) : List UInt8 :=
  flags :: put_u32 payload.length ++ payload
/-- `encode_message`, given the protobuf bytes of the message. -/
def encode_message (message : List UInt8) : List UInt8 := encode_frame 0 message
def encode_end_stream_payload (payload : List UInt8) : List UInt8 := encode_frame END_STREAM_FLAG payload
def encode_end_stream : List UInt8 := encode_end_stream_payload "{}".toUTF8.toList

theorem drop_shorter (n : Nat) (flags a b c d : UInt8) (body : List UInt8) :
    (body.drop n).length < (flags :: a :: b :: c :: d :: body).length := by
  simp only [List.length_drop,List.length_cons]
  omega
def decode_frames : List UInt8 → Except Error (List (UInt8 × List UInt8))
  | [] => .ok []
  | flags :: a :: b :: c :: d :: body =>
    let length := from_be_bytes a b c d
    if body.length < length then .error (.Protocol "truncated Connect payload") else
      match decode_frames (body.drop length) with
      | .ok frames => .ok ((flags,body.take length) :: frames)
      | .error error => .error error
  | _ => .error (.Protocol "truncated Connect envelope")
termination_by body => body.length
decreasing_by exact drop_shorter ..

def isEndStream (flags : UInt8) : Bool := flags &&& END_STREAM_FLAG != 0

/-- The observer keeps the bytes of an unfinished header, or how much of a
    payload is left. -/
structure ConnectCompletion where
  header : List UInt8 := []
  remaining : Nat := 0
  terminal : Bool := false
  unfinished : header.length < 5 := by decide

/-- What a full header says: the payload length and whether the frame is the last. -/
def readHeader : List UInt8 → Nat × Bool
  | [flags,a,b,c,d] => (from_be_bytes a b c d,isEndStream flags)
  | _ => (0,false)

variable {chunk : List UInt8}

variable {n : Nat}

theorem drop_lt (nonempty : chunk ≠ []) (positive : 0 < n) : (chunk.drop n).length < chunk.length := by
  have := List.length_pos_of_ne_nil nonempty
  rw [List.length_drop]
  omega
theorem header_short {header : List UInt8} (unfinished : header.length < 5)
    (short : (header ++ chunk.take (min chunk.length (5 - header.length))).length ≠ 5) :
    (header ++ chunk.take (min chunk.length (5 - header.length))).length < 5 := by
  simp only [List.length_append,List.length_take] at *
  omega

/-- Returns whether the chunk completed an end-stream frame; the rest of the
    chunk is then left unread. -/
def observe (seen : ConnectCompletion) (chunk : List UInt8) : Bool × ConnectCompletion :=
  if empty : chunk = [] then (false,seen)
  else if inside : seen.remaining ≠ 0 then
    let skip := min chunk.length seen.remaining
    let after := { seen with remaining := seen.remaining - skip }
    if after.remaining = 0 ∧ after.terminal then (true,after) else observe after (chunk.drop skip)
  else
    let taken := min chunk.length (5 - seen.header.length)
    let header := seen.header ++ chunk.take taken
    if full : header.length = 5 then
      let after : ConnectCompletion :=
        { header := [], remaining := (readHeader header).1, terminal := (readHeader header).2 }
      if after.remaining = 0 ∧ after.terminal then (true,after) else observe after (chunk.drop taken)
    else observe { seen with header := header, unfinished := header_short seen.unfinished full } (chunk.drop taken)
termination_by chunk.length
decreasing_by
  · have := List.length_pos_of_ne_nil empty
    exact drop_lt empty (by omega)
  · have := List.length_pos_of_ne_nil empty
    have := seen.unfinished
    exact drop_lt empty (by omega)
  · have := List.length_pos_of_ne_nil empty
    have := seen.unfinished
    exact drop_lt empty (by omega)

variable {flags : UInt8} {rest : List UInt8}

theorem from_be_bytes_lt (a b c d : UInt8) : from_be_bytes a b c d < 2 ^ 32 := by
  have := a.toNat_lt
  have := b.toNat_lt
  have := c.toNat_lt
  have := d.toNat_lt
  simp only [from_be_bytes]
  omega
theorem from_be_bytes_put (fits : n < 2 ^ 32) :
    from_be_bytes (UInt8.ofNat (n / 2 ^ 24)) (UInt8.ofNat (n / 2 ^ 16)) (UInt8.ofNat (n / 2 ^ 8)) (UInt8.ofNat n) = n := by
  simp only [from_be_bytes,UInt8.toNat_ofNat']
  omega
theorem put_from_be_bytes (a b c d : UInt8) : put_u32 (from_be_bytes a b c d) = [a,b,c,d] := by
  have := a.toNat_lt
  have := b.toNat_lt
  have := c.toNat_lt
  have := d.toNat_lt
  simp only [put_u32,List.cons.injEq,← UInt8.toNat_inj,UInt8.toNat_ofNat',from_be_bytes]
  refine ⟨?_,?_,?_,?_,trivial⟩ <;> omega
theorem put_u32_length (n : Nat) : (put_u32 n).length = 4 := rfl

theorem header_inj {flags' : UInt8} {m : Nat} {rest' : List UInt8} (nFits : n < 2 ^ 32) (mFits : m < 2 ^ 32)
    (same : flags :: put_u32 n ++ rest = flags' :: put_u32 m ++ rest') : flags = flags' ∧ n = m ∧ rest = rest' := by
  simp only [put_u32,List.cons_append,List.nil_append,List.cons.injEq] at same
  obtain ⟨flagsSame,a,b,c,d,restSame⟩ := same
  refine ⟨flagsSame,?_,restSame⟩
  rw [← from_be_bytes_put nFits,← from_be_bytes_put mFits,a,b,c,d]

theorem readHeader_put (flags : UInt8) (fits : n < 2 ^ 32) : readHeader (flags :: put_u32 n) = (n,isEndStream flags) := by
  simp only [readHeader,put_u32,from_be_bytes_put fits]
theorem header_of_length {header : List UInt8} (full : header.length = 5) : ∃ flags n, n < 2 ^ 32 ∧ header = flags :: put_u32 n := by
  match header,full with
  | [flags,a,b,c,d],_ => exact ⟨flags,from_be_bytes a b c d,from_be_bytes_lt a b c d,by rw [put_from_be_bytes]⟩

/-! ## Decoding a whole buffer -/

def encodeAll (frames : List (UInt8 × List UInt8)) : List UInt8 :=
  frames.flatMap fun frame => encode_frame frame.1 frame.2
/-- Every payload length fits the 32-bit length field. -/
def Fits (frames : List (UInt8 × List UInt8)) : Prop := ∀ frame ∈ frames, frame.2.length < 2 ^ 32

theorem encodeAll_cons (flags : UInt8) (payload : List UInt8) (frames : List (UInt8 × List UInt8)) :
    encodeAll ((flags,payload) :: frames) = encode_frame flags payload ++ encodeAll frames := rfl
theorem encode_frame_append (flags : UInt8) (payload rest : List UInt8) :
    encode_frame flags payload ++ rest = flags :: put_u32 payload.length ++ (payload ++ rest) := by
  simp [encode_frame]

variable {payload : List UInt8}

variable {frames : List (UInt8 × List UInt8)}

theorem fits_cons : Fits ((flags,payload) :: frames) ↔ payload.length < 2 ^ 32 ∧ Fits frames := by
  simp [Fits]

theorem decode_frames_frame (flags : UInt8) (fits : payload.length < 2 ^ 32) (rest : List UInt8) :
    decode_frames (encode_frame flags payload ++ rest) = match decode_frames rest with
      | .ok frames => .ok ((flags,payload) :: frames)
      | .error error => .error error := by
  have length := from_be_bytes_put fits
  simp only [encode_frame,put_u32,List.cons_append,List.nil_append]
  rw [decode_frames]
  simp only [length,List.length_append,Nat.not_lt.mpr (Nat.le_add_right _ _),if_false]
  rw [List.drop_left,List.take_left]

theorem decode_frames_encodeAll (frames : List (UInt8 × List UInt8)) (fits : Fits frames) :
    decode_frames (encodeAll frames) = .ok frames := by
  induction frames with
  | nil => simp [encodeAll,decode_frames]
  | cons frame rest ih =>
    obtain ⟨flags,payload⟩ := frame
    obtain ⟨payloadFits,restFits⟩ := fits_cons.mp fits
    rw [encodeAll_cons,decode_frames_frame flags payloadFits,ih restFits]

theorem decode_frames_sound (body : List UInt8) : ∀ frames, decode_frames body = .ok frames → Fits frames ∧ body = encodeAll frames := by
  induction body using decode_frames.induct with
  | case1 =>
    intro frames decoded
    simp only [decode_frames,Except.ok.injEq] at decoded
    subst decoded
    exact ⟨by simp [Fits],rfl⟩
  | case2 flags a b c d body length short =>
    intro frames decoded
    rw [decode_frames] at decoded
    simp only [show body.length < from_be_bytes a b c d from short,if_true] at decoded
    exact absurd decoded (by simp)
  | case3 flags a b c d body length long frames' rest ih =>
    intro frames decoded
    rw [decode_frames] at decoded
    have enough : ¬ body.length < from_be_bytes a b c d := long
    have decodedRest : decode_frames (body.drop (from_be_bytes a b c d)) = .ok frames' := rest
    simp only [enough,if_false,decodedRest,Except.ok.injEq] at decoded
    subst decoded
    obtain ⟨fits,split⟩ := ih frames' rest
    have taken : (body.take (from_be_bytes a b c d)).length = from_be_bytes a b c d := by
      rw [List.length_take]
      omega
    refine ⟨fits_cons.mpr ⟨by rw [taken]; exact from_be_bytes_lt a b c d,fits⟩,?_⟩
    rw [encodeAll_cons,← split,encode_frame_append,taken,put_from_be_bytes,List.take_append_drop]
    rfl
  | case4 flags a b c d body length long error rest ih =>
    intro frames decoded
    rw [decode_frames] at decoded
    have enough : ¬ body.length < from_be_bytes a b c d := long
    have decodedRest : decode_frames (body.drop (from_be_bytes a b c d)) = .error error := rest
    simp only [enough,if_false,decodedRest] at decoded
    exact absurd decoded (by simp)
  | case5 body notEmpty notFrame =>
    intro frames decoded
    rw [decode_frames] at decoded
    · exact absurd decoded (by simp)
    · exact notEmpty
    · exact notFrame

theorem decode_frames_ok_iff (body : List UInt8) (frames : List (UInt8 × List UInt8)) :
    decode_frames body = .ok frames ↔ Fits frames ∧ body = encodeAll frames := by
  refine ⟨decode_frames_sound body frames,?_⟩
  rintro ⟨fits,rfl⟩
  exact decode_frames_encodeAll frames fits

theorem decode_frames_error_iff (body : List UInt8) :
    (∃ error, decode_frames body = .error error) ↔ ¬ ∃ frames, Fits frames ∧ body = encodeAll frames := by
  constructor
  · rintro ⟨error,failed⟩ ⟨frames,complete⟩
    rw [(decode_frames_ok_iff body frames).mpr complete] at failed
    exact absurd failed (by simp)
  · intro incomplete
    cases decoded : decode_frames body with
    | ok frames => exact absurd ⟨frames,decode_frames_sound body frames decoded⟩ incomplete
    | error error => exact ⟨error,rfl⟩

/-! ## Observing a stream in chunks -/

/-- A complete end-stream frame stands at a frame boundary of the stream, as
    `decode_frames` finds it in a prefix. -/
def HasEndStream (stream : List UInt8) : Prop :=
  ∃ done frames, done <+: stream ∧ decode_frames done = .ok frames ∧ ∃ frame ∈ frames, isEndStream frame.1

/-- The observer over the chunks of a stream: whether some call reported
    completion, as the proxy remembers it. -/
def observeAll (seen : ConnectCompletion) : List (List UInt8) → Bool × ConnectCompletion
  | [] => (false,seen)
  | chunk :: rest =>
    let (complete,after) := observe seen chunk
    let (later,final) := observeAll after rest
    (complete || later,final)

/-- What the observer remembers of the bytes after the last complete frame. -/
def Remembers (seen : ConnectCompletion) (tail : List UInt8) : Prop :=
  (seen.remaining = 0 ∧ tail = seen.header) ∨
    (seen.remaining ≠ 0 ∧ seen.header = [] ∧ ∃ flags payload, payload.length + seen.remaining < 2 ^ 32 ∧
      tail = flags :: put_u32 (payload.length + seen.remaining) ++ payload ∧ seen.terminal = isEndStream flags)
/-- The stream so far is complete frames, none of them the last, and the
    remembered tail. -/
def Tracks (stream : List UInt8) (seen : ConnectCompletion) : Prop :=
  ∃ frames tail, stream = encodeAll frames ++ tail ∧ Fits frames ∧ (∀ frame ∈ frames, ¬ isEndStream frame.1) ∧ Remembers seen tail

variable {stream : List UInt8}

theorem hasEndStream_append (found : HasEndStream stream) (more : List UInt8) : HasEndStream (stream ++ more) := by
  obtain ⟨done,frames,start,decoded,last⟩ := found
  exact ⟨done,frames,start.trans (List.prefix_append _ _),decoded,last⟩

variable {seen : ConnectCompletion}

theorem remembers_incomplete {tail : List UInt8} (remembers : Remembers seen tail) (fits : payload.length < 2 ^ 32) :
    tail ≠ encode_frame flags payload ++ rest := by
  intro same
  rcases remembers with ⟨_,header⟩ | ⟨unread,_,flags',payload',fits',split,_⟩
  · have short := seen.unfinished
    rw [← header,same] at short
    simp only [encode_frame,List.length_append,List.length_cons,put_u32_length] at short
    omega
  · rw [split,encode_frame_append] at same
    obtain ⟨_,lengths,payloads⟩ := header_inj fits' fits same
    have := congrArg List.length payloads
    rw [List.length_append] at this
    omega

/-- Frames at the front of a stream are found in the same order, so any
    complete frames are among those before the remembered tail. -/
theorem frames_initial {tail : List UInt8} (remembers : Remembers seen tail) (found : List (UInt8 × List UInt8)) :
    ∀ frames, Fits frames → Fits found → encodeAll frames ++ tail = encodeAll found ++ rest → found <+: frames := by
  induction found with
  | nil => intro frames _ _ _; exact List.nil_prefix
  | cons frame found ih =>
    obtain ⟨flags,payload⟩ := frame
    intro frames fits foundFits same
    obtain ⟨payloadFits,laterFits⟩ := fits_cons.mp foundFits
    rw [encodeAll_cons,List.append_assoc] at same
    cases frames with
    | nil => exact absurd same (remembers_incomplete remembers payloadFits)
    | cons first frames =>
      obtain ⟨flags',payload'⟩ := first
      obtain ⟨firstFits,fits⟩ := fits_cons.mp fits
      rw [encodeAll_cons,List.append_assoc,encode_frame_append,encode_frame_append] at same
      obtain ⟨rfl,lengths,after⟩ := header_inj firstFits payloadFits same
      obtain ⟨rfl,remainder⟩ := List.append_inj after lengths
      exact List.cons_prefix_cons.mpr ⟨rfl,ih frames fits laterFits remainder⟩

theorem tracks_no_end (tracks : Tracks stream seen) : ¬ HasEndStream stream := by
  obtain ⟨frames,tail,split,fits,ordinary,remembers⟩ := tracks
  rintro ⟨done,found,⟨rest,whole⟩,decoded,frame,member,last⟩
  obtain ⟨foundFits,complete⟩ := decode_frames_sound done found decoded
  rw [split,complete] at whole
  exact ordinary frame ((frames_initial remembers found frames fits foundFits whole.symm).subset member) last

theorem tracks_start : Tracks [] {} := ⟨[],[],rfl,by simp [Fits],by simp,.inl ⟨rfl,rfl⟩⟩

theorem frame_complete (fits : Fits frames) (flags : UInt8) (payloadFits : payload.length < 2 ^ 32) : Fits (frames ++ [(flags,payload)]) ∧
      encodeAll frames ++ (flags :: put_u32 payload.length ++ payload) = encodeAll (frames ++ [(flags,payload)]) := by
  refine ⟨?_,by simp [encodeAll,encode_frame]⟩
  intro frame member
  rcases List.mem_append.mp member with earlier | last
  · exact fits frame earlier
  · rw [List.mem_singleton.mp last]
    exact payloadFits

/-- After a complete frame the observer reports it, when it is the last, or
    goes on with the next header. -/
theorem complete_or_tracks (fits : Fits frames) (ordinary : ∀ frame ∈ frames, ¬ isEndStream frame.1) (flags : UInt8)
    (payloadFits : payload.length < 2 ^ 32) {after : ConnectCompletion} (ended : after.remaining = 0) (cleared : after.header = []) :
    let stream := encodeAll frames ++ (flags :: put_u32 payload.length ++ payload)
    (isEndStream flags → HasEndStream stream) ∧ (¬ isEndStream flags → Tracks stream after) := by
  obtain ⟨allFits,whole⟩ := frame_complete fits flags payloadFits
  simp only [whole]
  constructor
  · intro last
    exact ⟨_,_,List.prefix_rfl,decode_frames_encodeAll _ allFits,(flags,payload),by simp,last⟩
  · intro more
    refine ⟨_,[],by simp,allFits,?_,.inl ⟨ended,cleared.symm⟩⟩
    intro frame member
    rcases List.mem_append.mp member with earlier | last
    · exact ordinary frame earlier
    · rw [List.mem_singleton.mp last]
      exact more

theorem payload_turn (tracks : Tracks stream seen) (inside : seen.remaining ≠ 0) : let skip := min chunk.length seen.remaining
    let after := { seen with remaining := seen.remaining - skip }
    (after.remaining = 0 ∧ after.terminal → HasEndStream (stream ++ chunk.take skip)) ∧
      (¬ (after.remaining = 0 ∧ after.terminal) → Tracks (stream ++ chunk.take skip) after) := by
  intro skip after
  obtain ⟨frames,tail,rfl,fits,ordinary,remembers⟩ := tracks
  rcases remembers with ⟨none,_⟩ | ⟨_,noHeader,flags,payload,payloadFits,rfl,terminal⟩
  · exact absurd none inside
  have taken : (chunk.take skip).length = skip := by
    rw [List.length_take]
    omega
  have grown : (payload ++ chunk.take skip).length = payload.length + skip := by rw [List.length_append,taken]
  have total : payload.length + seen.remaining = (payload ++ chunk.take skip).length + after.remaining := by
    simp only [grown,after]
    omega
  have split : encodeAll frames ++ (flags :: put_u32 (payload.length + seen.remaining) ++ payload) ++ chunk.take skip =
      encodeAll frames ++ (flags :: put_u32 ((payload ++ chunk.take skip).length + after.remaining) ++ (payload ++ chunk.take skip)) := by
    rw [total]
    simp
  rw [split]
  rw [total] at payloadFits
  have last : after.terminal = isEndStream flags := terminal
  by_cases ended : after.remaining = 0
  · have grownFits : (payload ++ chunk.take skip).length < 2 ^ 32 := by omega
    simp only [ended,Nat.add_zero,true_and,last]
    exact complete_or_tracks fits ordinary _ grownFits ended noHeader
  · refine ⟨fun both => absurd both.1 ended,fun _ => ?_⟩
    exact ⟨frames,_,rfl,fits,ordinary,.inr ⟨ended,noHeader,flags,_,payloadFits,rfl,last⟩⟩

theorem header_turn (tracks : Tracks stream seen)
    (between : seen.remaining = 0) {taken : Nat} (full : (seen.header ++ chunk.take taken).length = 5) :
    let after : ConnectCompletion := {
      header := [], remaining := (readHeader (seen.header ++ chunk.take taken)).1,
      terminal := (readHeader (seen.header ++ chunk.take taken)).2 }
    (after.remaining = 0 ∧ after.terminal → HasEndStream (stream ++ chunk.take taken)) ∧
      (¬ (after.remaining = 0 ∧ after.terminal) → Tracks (stream ++ chunk.take taken) after) := by
  obtain ⟨frames,tail,rfl,fits,ordinary,remembers⟩ := tracks
  rcases remembers with ⟨_,rfl⟩ | ⟨some,_⟩
  swap
  · exact absurd between some
  obtain ⟨flags,n,nFits,header⟩ := header_of_length full
  intro after
  have read : readHeader (seen.header ++ chunk.take taken) = (n,isEndStream flags) := by
    rw [header,readHeader_put flags nFits]
  have remaining : after.remaining = n := congrArg Prod.fst read
  have last : after.terminal = isEndStream flags := congrArg Prod.snd read
  rw [List.append_assoc,header]
  by_cases ended : after.remaining = 0
  · have zero : n = 0 := by omega
    have emptyFits : ([] : List UInt8).length < 2 ^ 32 := by simp
    have result := complete_or_tracks fits ordinary flags emptyFits ended rfl
    simp only [List.length_nil,List.append_nil] at result
    simp only [zero,ended,last,true_and]
    exact result
  · refine ⟨fun both => absurd both.1 ended,fun _ => ?_⟩
    refine ⟨frames,_,rfl,fits,ordinary,.inr ⟨ended,rfl,flags,[],?_,?_,last⟩⟩
    · simpa [remaining] using nFits
    · simp [remaining]

theorem short_turn (tracks : Tracks stream seen)
    (between : seen.remaining = 0) {taken : Nat} (short : (seen.header ++ chunk.take taken).length < 5) :
    Tracks (stream ++ chunk.take taken) { seen with header := seen.header ++ chunk.take taken, unfinished := short } := by
  obtain ⟨frames,tail,rfl,fits,ordinary,remembers⟩ := tracks
  rcases remembers with ⟨_,rfl⟩ | ⟨some,_⟩
  · exact ⟨frames,_,List.append_assoc _ _ _,fits,ordinary,.inl ⟨between,rfl⟩⟩
  · exact absurd between some

/-- What one chunk means for a tracked stream: completion is reported for a
    complete end-stream frame, and otherwise the longer stream is tracked. -/
def Observed (stream chunk : List UInt8) (result : Bool × ConnectCompletion) : Prop :=
  (result.1 = true → HasEndStream (stream ++ chunk)) ∧ (result.1 = false → Tracks (stream ++ chunk) result.2)

theorem observed_rest {result : Bool × ConnectCompletion}
    (rest : Observed (stream ++ chunk.take n) (chunk.drop n) result) : Observed stream chunk result := by
  simpa [Observed,List.append_assoc,List.take_append_drop] using rest
theorem observed_complete {after : ConnectCompletion}
    (found : HasEndStream (stream ++ chunk.take n)) : Observed stream chunk (true,after) := by
  refine ⟨fun _ => ?_,fun no => Bool.noConfusion no⟩
  have whole := hasEndStream_append found (chunk.drop n)
  rwa [List.append_assoc,List.take_append_drop] at whole

theorem observe_tracks (seen : ConnectCompletion) (chunk : List UInt8) :
    ∀ stream, Tracks stream seen → Observed stream chunk (observe seen chunk) := by
  induction seen, chunk using observe.induct with
  | case1 seen =>
    intro stream tracks
    simpa [observe,Observed] using tracks
  | case2 seen chunk nonempty inside skip after complete =>
    intro stream tracks
    rw [observe,dif_neg nonempty,dif_pos inside,if_pos complete]
    exact observed_complete ((payload_turn tracks inside).1 complete)
  | case3 seen chunk nonempty inside skip after more ih =>
    intro stream tracks
    rw [observe,dif_neg nonempty,dif_pos inside,if_neg more]
    exact observed_rest (ih _ ((payload_turn tracks inside).2 more))
  | case4 seen chunk nonempty between taken header full after complete =>
    intro stream tracks
    rw [observe,dif_neg nonempty,dif_neg between,dif_pos full,if_pos complete]
    exact observed_complete ((header_turn tracks (not_not.mp between) full).1 complete)
  | case5 seen chunk nonempty between taken header full after more ih =>
    intro stream tracks
    rw [observe,dif_neg nonempty,dif_neg between,dif_pos full,if_neg more]
    exact observed_rest (ih _ ((header_turn tracks (not_not.mp between) full).2 more))
  | case6 seen chunk nonempty between taken header short ih =>
    intro stream tracks
    rw [observe,dif_neg nonempty,dif_neg between,dif_neg short]
    exact observed_rest (ih _ (short_turn tracks (not_not.mp between) (header_short seen.unfinished short)))

theorem observeAll_tracks (chunks : List (List UInt8)) : ∀ stream seen, Tracks stream seen →
      ((observeAll seen chunks).1 = true ↔ HasEndStream (stream ++ chunks.flatten)) := by
  induction chunks with
  | nil =>
    intro stream seen tracks
    simpa [observeAll] using tracks_no_end tracks
  | cons chunk rest ih =>
    intro stream seen tracks
    have step := observe_tracks seen chunk stream tracks
    rw [List.flatten_cons,← List.append_assoc]
    cases reported : (observe seen chunk).1 with
    | true => simpa [observeAll,reported] using hasEndStream_append (step.1 reported) rest.flatten
    | false => simpa [observeAll,reported] using ih _ _ (step.2 reported)

/-- The two frame parsers agree. `decode_frames` inverts the encoding of any
    frames and fails exactly on what is not complete frames; and after any
    chunks of any stream the observer has reported completion exactly when
    those chunks hold a complete end-stream frame at a frame boundary. -/
theorem framing_agrees : (∀ frames, Fits frames → decode_frames (encodeAll frames) = .ok frames) ∧
      (∀ body, (∃ error, decode_frames body = .error error) ↔ ¬ ∃ frames, Fits frames ∧ body = encodeAll frames) ∧
      (∀ chunks : List (List UInt8), (observeAll {} chunks).1 = true ↔ HasEndStream chunks.flatten) :=
  ⟨decode_frames_encodeAll,decode_frames_error_iff,fun chunks => by simpa using observeAll_tracks chunks [] {} tracks_start⟩

/-- An ordinary frame and the end of the stream. -/
theorem framing_agrees_two_frames :
    Fits [(0,[7,2]),(2,[123,125])] ∧ decode_frames (encodeAll [(0,[7,2]),(2,[123,125])]) = .ok [(0,[7,2]),(2,[123,125])] :=
  ⟨by simp [Fits],framing_agrees.1 _ (by simp [Fits])⟩

end MyCursor.Connect
