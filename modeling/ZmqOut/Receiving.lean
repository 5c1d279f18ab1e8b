import ZmqOut.FanOut
import ZmqOut.HandlerPointer
import ZmqOut.Truncation

/-!
Which messages a worker handles. The status of the stream and what it has left
unread would tell a frame from any other message; do_start looks at neither. Of a
message that is longer than an int can say it decodes the beginning.
-/
namespace ZmqOut.Receiving
open ZmqOut.Runs ZmqOut.Codec ZmqOut.DataStream ZmqOut.Variant ZmqOut.Sockets ZmqOut.Server ZmqOut.Steps
  ZmqOut.Registry ZmqOut.HandlerPointer ZmqOut.FanOut ZmqOut.Truncation

/-- The bytes are the complete encoding of this frame. -/
def Encodes (bytes : List UInt8) (f : data_frame) : Prop := Fits f ∧ f.write = bytes

/-- The message that the step takes off the worker's socket. -/
def received (p : Process) : Event → Option (List UInt8)
  | .command _ _ => none
  | .worker k input => (p.workers[k]?.filter fun w => w.pc = .recv).bind fun _ => input.message

/-- The frame with which the step enters handle. -/
def handed (qt : Qt) (p : Process) (k : Nat) (input : Input) : Option data_frame :=
  (step qt p (.worker k input)).bind fun p' => p'.workers[k]?.bind fun w =>
    match w.pc with
    | .handle df => some df
    | _ => none

/-- A message leads to a call of handle with a frame exactly if it encodes that frame, and one
    that encodes none to no push. -/
def WellHandled (qt : Qt) (p : Process) : Event → Prop
  | .command _ _ => True
  | .worker k input => ∀ bytes, received p (.worker k input) = some bytes →
      (∀ f, handed qt p k input = some f ↔ Encodes bytes f) ∧
      ((∀ f, ¬ Encodes bytes f) → ∀ p', step qt p (.worker k input) = some p' →
        ∀ input', produced qt p' (.worker k input') = [])

/-- The message is the complete encoding of a frame, and its size is an int, or all that is beyond
    the largest int is a part of the count of an empty image. -/
def WellFormed (p : Process) (event : Event) : Prop := ∀ bytes, received p event = some bytes →
  ∃ f, Encodes bytes f ∧ (bytes.length ≤ INT_MAX ∨ f.image = some [] ∧ (writeQString f.context).length ≤ INT_MAX)

/-! ### What decoding makes of a message -/

theorem encodes_read {bytes : List UInt8} {f : data_frame} (encodes : Encodes bytes f) :
    data_frame.read ⟨bytes,.Ok⟩ = (f,⟨[],.Ok⟩) := by
  obtain ⟨fits,rfl⟩ := encodes
  have back := read_inverts.complete f fits []
  rw [List.append_nil] at back
  exact decoded_some.mp back

/-- What is beyond the largest int is not looked at. -/
theorem decode_take (bytes : List UInt8) : decode bytes = data_frame.read ⟨bytes.take INT_MAX,.Ok⟩ := by
  rw [decode,zmq_msg_recv,Nat.min_comm,← List.take_eq_take_min]

theorem decode_short {bytes : List UInt8} (short : bytes.length ≤ INT_MAX) :
    decode bytes = data_frame.read ⟨bytes,.Ok⟩ := by
  rw [decode_take,List.take_of_length_le short]

/-- Which encodings do_start reads back. -/
theorem decode_encodes {bytes : List UInt8} {f : data_frame} (encodes : Encodes bytes f) :
    (decode bytes).1 = f ↔
      bytes.length ≤ INT_MAX ∨ f.image = some [] ∧ (writeQString f.context).length ≤ INT_MAX := by
  by_cases short : bytes.length ≤ INT_MAX
  · simp [decode_short short,encodes_read encodes,short]
  · obtain ⟨fits,rfl⟩ := encodes
    have cut := Nat.lt_of_not_le short
    have wide : ¬ INT_MAX < 4 := by decide
    rw [decode_take,cut_frames f fits INT_MAX cut,remnant_whole cut]
    simp [short,wide]

/-- A frame that takes less than 2 GiB is within Qt's limits. -/
theorem write_fits {f : data_frame} (short : f.write.length < 2 ^ 31) : Fits f := by
  rw [data_frame.write,List.length_append] at short
  constructor
  · intro units filled
    rw [filled,writeQString,writeBytes,List.length_append,toUtf16_length] at short
    omega
  · intro bytes filled
    rw [filled,writeQByteArray,writeBytes,List.length_append] at short
    omega

/-- The test that do_start does not make: a message of any size that zmq_msg_recv can return
    is a frame if and only if the stream is left without an error and at its end. -/
theorem encodes_iff_decode {bytes : List UInt8} (short : bytes.length ≤ INT_MAX) :
    (∃ f, Encodes bytes f) ↔ (decode bytes).2 = ⟨[],.Ok⟩ := by
  rw [decode_short short]
  constructor
  · rintro ⟨f,encodes⟩
    rw [encodes_read encodes]
  · intro atEnd
    have whole := read_inverts.sound bytes (data_frame.read ⟨bytes,.Ok⟩).1 [] (decoded_some.mpr (Prod.ext rfl atEnd))
    rw [List.append_nil] at whole
    have below : bytes.length < 2 ^ 31 := by
      rw [INT_MAX] at short
      omega
    exact ⟨_,write_fits (whole ▸ below),whole.symm⟩

/-! ### What do_start does with it -/

theorem received_worker {p : Process} {k : Nat} {input : Input} {bytes : List UInt8}
    (received : received p (.worker k input) = some bytes) :
    ∃ w, p.workers[k]? = some w ∧ w.pc = .recv ∧ input.message = some bytes := by
  obtain ⟨w,filtered,message⟩ := Option.bind_eq_some_iff.mp received
  obtain ⟨there,pc⟩ := Option.filter_eq_some_iff.mp filtered
  exact ⟨w,there,by simpa using pc,message⟩

/-- Every message leads to a call of handle. -/
theorem receive_step (qt : Qt) {p : Process} {k : Nat} {input : Input} {bytes : List UInt8} {w : Worker}
    (there : p.workers[k]? = some w) (pc : w.pc = .recv) (message : input.message = some bytes) :
    step qt p (.worker k input) =
      some (setWorker k { w with pc := .handle (decode bytes).1 } p) := by
  rw [step_worker there]
  simp only [do_start,pc,message,Option.map_some]

theorem handed_received (qt : Qt) {p : Process} {k : Nat} {input : Input} {bytes : List UInt8}
    (received : received p (.worker k input) = some bytes) :
    handed qt p k input = some (decode bytes).1 := by
  obtain ⟨w,there,pc,message⟩ := received_worker received
  rw [handed,receive_step qt there pc message,Option.bind_some,
    setWorker_get (List.getElem?_eq_some_iff.mp there).1,Option.bind_some]

/-- Whatever a worker receives, its next two steps push a message to every entry of the vector. -/
theorem received_pushed {qt : Qt} {p : Process} {k : Nat} {input : Input} {bytes : List UInt8} (handlers : Handlers p)
    (received : received p (.worker k input) = some bytes) (input' : Input) :
    ∃ q sends, run (step qt) p [.worker k input,.worker k input'] = some q ∧ q.zmq.sends = p.zmq.sends ++ sends ∧
      sends.map (fun send => (send.socket,send.data)) =
        p.server.subscribers_sockets.map (fun socket => (socket,payload qt input'.duration)) := by
  obtain ⟨w,there,pc,message⟩ := received_worker received
  have receives := receive_step qt there pc message
  have there' := setWorker_get (p := p) (w := { w with pc := .handle (decode bytes).1 })
    (List.getElem?_eq_some_iff.mp there).1
  obtain ⟨h,found,vector⟩ := (step_handlers handlers receives).sound (.worker k input') _ there' (.inl ⟨_,rfl⟩)
  have handles : step qt _ (.worker k input') = some _ := step_handle there' rfl found vector input'
  obtain ⟨sends,executed,passed⟩ :=
    sendLoop_eq (payload qt input'.duration) input'.rc 0 p.server.subscribers_sockets p.zmq
  refine ⟨_,sends,by rw [run_taken receives,run_taken handles,run_nil],?_,passed⟩
  simp only [setWorker]
  rw [executed]

theorem wellHandled_iff (qt : Qt) (p : Process) (event : Event) : WellHandled qt p event ↔ WellFormed p event := by
  cases event with
  | command c answers => exact ⟨fun _ _ received => (by cases received),fun _ => trivial⟩
  | worker k input =>
    constructor
    · intro well bytes received
      have encodes := ((well bytes received).1 _).mp (handed_received qt received)
      exact ⟨_,encodes,(decode_encodes encodes).mp rfl⟩
    · intro formed bytes received
      obtain ⟨f,encodes,counted⟩ := formed bytes received
      refine ⟨?_,fun none => absurd encodes (none f)⟩
      intro g
      rw [handed_received qt received,(decode_encodes encodes).mpr counted,Option.some.injEq]
      constructor
      · rintro rfl
        exact encodes
      · intro encodes'
        exact congrArg Prod.fst ((encodes_read encodes).symm.trans (encodes_read encodes'))

/-- A worker handles exactly the frames that were sent, and nothing else, in the runs in which
    every message it receives is the encoding of a frame that is not cut. -/
theorem frames_handled_iff (qt : Qt) (m_handler : Nat) (addr : { a : Nat // 0 < a }) (events : List Event) :
    Meets (step qt) (WellHandled qt) (construct m_handler addr) events ↔
      Meets (step qt) WellFormed (construct m_handler addr) events :=
  meets_congr (wellHandled_iff qt)

/-- An empty message is handled and pushed. -/
theorem empty_message_handled : ∃ p q,
    run (step (.table [])) (construct 0 ⟨1,Nat.one_pos⟩)
      ([subscribeTo "tcp://*:1",.command (.start []) .granted] ++ polls none 4) = some p ∧
    received p (.worker 0 (.granted (some []))) = some [] ∧
    ¬ WellHandled (.table []) p (.worker 0 (.granted (some []))) ∧
    run (step (.table [])) p (polls (some []) 2) = some q ∧
    q.zmq.sends.map Send.socket = [.socket 0] := by
  refine ⟨_,_,rfl,by decide,?_,rfl,by decide⟩
  intro well
  obtain ⟨f,⟨-,empty⟩,-⟩ := (wellHandled_iff (.table []) _ _).mp well [] (by decide)
  exact write_nonempty f empty

end ZmqOut.Receiving
