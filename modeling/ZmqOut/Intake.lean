import ZmqOut.Lanes

/-!
What a worker takes in. In every interleaving it hands each message that it receives to
its handler once, in order, and goes on with the one message that the handler makes of
it; once the flag is set and as long as no start clears it, it receives at most one more.
-/
namespace ZmqOut.Intake
open ZmqOut.Runs ZmqOut.Accounts ZmqOut.DataStream ZmqOut.Variant ZmqOut.Sockets ZmqOut.Steps ZmqOut.Threads ZmqOut.Turns
open ZmqOut.Operations ZmqOut.Lanes
open ZmqOut.Server hiding step

/-- The message that zmq_msg_recv returns in the turn. -/
def received (s : State) : Turn → List (Nat × List UInt8) := shown (fun pc input =>
  match pc with
  | .recv => input.message
  | _ => none) s

/-- The frame that handle is called with in the turn. -/
def handled (s : State) : Turn → List (Nat × data_frame) := shown (fun pc _ =>
  match pc with
  | .handle df => some df
  | _ => none) s

/-- The frame that do_start reads from a message. -/
def frameOf (bytes : List UInt8) : data_frame := (decode bytes).1

/-- The message with which the worker is left before the guard of handle when its turn is over. -/
def answered (qt : Qt) (s : State) : Turn → List (Nat × QByteArray)
  | .worker k input => ((step qt s (.worker k input)).bind fun s' => match position k s' with
    | some (.guard data) => some (k,data)
    | _ => none).toList
  | _ => []

/-- The message is what doHandle makes of the frame, in the same worker. -/
def MadeOf (qt : Qt) (call : Nat × data_frame) (answer : Nat × QByteArray) : Prop :=
  answer.1 = call.1 ∧ ∃ duration, answer.2 = ZmqOutHandler.doHandle qt call.2 duration

/-- The frame that a worker at this position has read and not handed on. -/
def unhandled : Option WorkerPc → List data_frame
  | some (.handle df) => [df]
  | _ => []

section
variable {qt : Qt} {s s' : State} {turn : Turn} {k : Nat}

theorem received_elsewhere (elsewhere : Elsewhere k turn) : (received s turn).filterMap (ofWorker k) = [] :=
  shown_elsewhere ofWorker_other elsewhere

theorem handled_elsewhere (elsewhere : Elsewhere k turn) : (handled s turn).filterMap (ofWorker k) = [] :=
  shown_elsewhere ofWorker_other elsewhere

theorem works_handled {p p' : Process} {command : CommandPc} {input : Input} {w w' : Worker}
    (there : p.workers[k]? = some w) (works : Works p qt input w w' p') :
    (handled ⟨p,command⟩ (.worker k input)).filterMap (ofWorker k) ++ unhandled (some w'.pc) =
      unhandled (some w.pc) ++ ((received ⟨p,command⟩ (.worker k input)).filterMap (ofWorker k)).map frameOf := by
  have here : position k ⟨p,command⟩ = some w.pc := position_here there
  cases works with
  | test pc => cases p._stop <;> simp [handled,received,shown,here,pc,unhandled]
  | timeout pc message => simp [handled,received,shown,here,pc,message,unhandled]
  | receive pc message => simp [handled,received,shown,here,pc,message,unhandled,ofWorker,frameOf]
  | handle pc => simp [handled,received,shown,here,pc,unhandled,ofWorker]
  | socket pc | connect pc | options pc | discard pc | skip pc _ | enter pc _ | pass pc _ | leave pc _ | fetch pc _
  | send pc | closePull pc | closeHandler pc => simp [handled,received,shown,here,pc,unhandled]

theorem step_handles (taken : step qt s turn = some s') :
    (handled s turn).filterMap (ofWorker k) ++ unhandled (position k s') =
      unhandled (position k s) ++ ((received s turn).filterMap (ofWorker k)).map frameOf := by
  rcases elsewhere_or k turn with elsewhere | ⟨input,rfl⟩
  · rw [handled_elsewhere elsewhere,received_elsewhere elsewhere,List.map_nil,List.append_nil,List.nil_append]
    rcases position_elsewhere elsewhere taken with same | ⟨-,absent,started⟩
    · rw [same]
    · rw [started,absent]
      rfl
  · cases step_operation taken with
    | worker there works =>
      rw [position_here there,position_after there works]
      exact works_handled there works

/-- The turn in which handle is called leaves the worker with the message that it makes, and no other turn
    leaves a worker with one. -/
theorem step_answers (taken : step qt s turn = some s') : List.Forall₂ (MadeOf qt) (handled s turn) (answered qt s turn) := by
  cases turn with
  | command _ _ | advance _ => exact .nil
  | worker k input =>
    rw [answered,taken,Option.bind_some]
    cases step_operation taken with
    | @worker p p' command _ _ w w' there works =>
      have here : position k ⟨p,command⟩ = some w.pc := position_here there
      rw [position_after there works]
      cases works with
      | @handle df pc =>
        have call : handled ⟨p,command⟩ (.worker k input) = [(k,df)] := by simp [handled,shown,here,pc]
        rw [call]
        exact .cons ⟨rfl,input.duration,rfl⟩ .nil
      | test pc => cases p._stop <;> simp [handled,shown,here,pc]
      | socket pc | connect pc | options pc | timeout pc _ | receive pc _ | discard pc | skip pc _ | enter pc _ | pass pc _
      | leave pc _ | fetch pc _ | send pc | closePull pc | closeHandler pc => simp [handled,shown,here,pc]

end

/-- In every interleaving the frames that a worker hands to its handler are those of the messages that it
    has received, once each and in order, but for the last one while it is not handed on; and the
    calls of handle leave the workers with one message each, the one that doHandle makes of the frame
    of the call. -/
theorem frames_handled_once (qt : Qt) (m_handler : Nat) (addr : { a : Nat // 0 < a }) (turns : List Turn) (s : State)
    (executed : run (step qt) (whole (construct m_handler addr)) turns = some s) :
    (∀ k, (trace (step qt) handled (whole (construct m_handler addr)) turns).filterMap (ofWorker k) ++
        unhandled (position k s) =
      ((trace (step qt) received (whole (construct m_handler addr)) turns).filterMap (ofWorker k)).map frameOf) ∧
    List.Forall₂ (MadeOf qt) (trace (step qt) handled (whole (construct m_handler addr)) turns)
      (trace (step qt) (answered qt) (whole (construct m_handler addr)) turns) := by
  refine ⟨?_,run_paired (fun _ _ _ taken => step_answers taken) executed⟩
  intro k
  have balanced := run_balanced appends_eq (fun s => unhandled (position k s)) (fun _ _ _ _ _ _ => trivial)
    (fun _ _ _ _ _ taken => step_handles taken) trivial (meets_of_forall (fun _ _ _ => trivial) _) executed
  rw [trace_filterMap,trace_filterMap,trace_map]
  exact balanced

theorem frames_handled_once_fetch : ∃ s bytes data,
    run (step (.table [])) (whole (construct 0 ⟨1,Nat.one_pos⟩)) Races.untilFetch = some s ∧
    (trace (step (.table [])) handled (whole (construct 0 ⟨1,Nat.one_pos⟩)) Races.untilFetch).filterMap (ofWorker 0) =
      [frameOf bytes] ∧ unhandled (position 0 s) = [] ∧ position 0 s = some (.fetch data 0) ∧
    List.Forall₂ (MadeOf (.table [])) [(0,frameOf bytes)] [(0,some data)] := by
  obtain ⟨handles,answers⟩ := frames_handled_once (.table []) 0 ⟨1,Nat.one_pos⟩ Races.untilFetch _ rfl
  refine ⟨_,data_frame.write ⟨none,none⟩,_,rfl,?_,rfl,rfl,answers⟩
  rw [← List.append_nil (List.filterMap _ _)]
  exact handles 0

/-! ### Once the flag is set -/

/-- The turn is not the one in which start clears the flag. -/
def KeepsFlag (s : State) : Turn → Prop
  | .advance _ => ∀ endpoint, s.command ≠ .startFlag endpoint
  | _ => True

/-- How many messages a worker at this position receives at most. -/
def mayReceive : Option WorkerPc → Nat
  | some .recv => 1
  | _ => 0

/-- How many messages a worker at this position makes at most. -/
def mayMake : Option WorkerPc → Nat
  | some .recv | some (.handle _) => 1
  | _ => 0

section
variable {qt : Qt} {s s' : State} {turn : Turn} {k : Nat}

theorem step_flagged (flag : s.process._stop = true) (keeps : KeepsFlag s turn) (taken : step qt s turn = some s') :
    s'.process._stop = true := by
  cases step_operation taken with
  | config | start => simpa using flag
  | stop => rfl
  | @startFlag p endpoint answers => exact absurd rfl (keeps endpoint)
  | duplicate | subscribe _ | subscribePush | subscribeSocket | subscribeStore | subscribeBind | startThread
  | stopPass _ | stopLeave _ | stopRead _ | stopClose | stopClear | stopForget => exact flag
  | worker there works =>
    rw [(Quiescent.works_frame works).1]
    exact flag

theorem works_quiets {p p' : Process} {command : CommandPc} {input : Input} {w w' : Worker} (flag : p._stop = true)
    (there : p.workers[k]? = some w) (works : Works p qt input w w' p') :
    mayReceive (some w'.pc) + ((received ⟨p,command⟩ (.worker k input)).filterMap (ofWorker k)).length ≤
        mayReceive (some w.pc) ∧
      mayMake (some w'.pc) + ((made qt ⟨p,command⟩ (.worker k input)).filterMap (ofWorker k)).length ≤
        mayMake (some w.pc) := by
  have here : position k ⟨p,command⟩ = some w.pc := position_here there
  cases works with
  | test pc => simp [received,made,shown,here,pc,flag,mayReceive,mayMake]
  | timeout pc message | receive pc message =>
    simp [received,made,shown,here,pc,message,mayReceive,mayMake,ofWorker]
  | handle pc => simp [received,made,shown,here,pc,mayReceive,mayMake,ofWorker]
  | socket pc | connect pc | options pc | discard pc | skip pc _ | enter pc _ | pass pc _ | leave pc _ | fetch pc _
  | send pc | closePull pc | closeHandler pc => simp [received,made,shown,here,pc,mayReceive,mayMake]

theorem step_quiets (flag : s.process._stop = true) (taken : step qt s turn = some s') :
    mayReceive (position k s') + ((received s turn).filterMap (ofWorker k)).length ≤ mayReceive (position k s) ∧
      mayMake (position k s') + ((made qt s turn).filterMap (ofWorker k)).length ≤ mayMake (position k s) := by
  rcases elsewhere_or k turn with elsewhere | ⟨input,rfl⟩
  · rw [received_elsewhere elsewhere,made_elsewhere elsewhere]
    rcases position_elsewhere elsewhere taken with same | ⟨-,absent,started⟩
    · rw [same]
      exact ⟨Nat.le_refl _,Nat.le_refl _⟩
    · rw [started,absent]
      exact ⟨Nat.le_refl _,Nat.le_refl _⟩
  · cases step_operation taken with
    | worker there works =>
      rw [position_here there,position_after there works]
      exact works_quiets flag there works

end

/-- A worker that may still pass a message makes no other one. -/
theorem pass_or_make (n : Nat) (s : State) (pc : Option WorkerPc) : (mayPass n s pc).length + mayMake pc ≤ 1 := by
  have most : ∀ (P : Prop) [Decidable P] (data : List UInt8), (if P then [data] else []).length ≤ 1 := by
    intro P _ data
    by_cases holds : P <;> simp [holds]
  unfold mayPass mayMake
  split
  · exact Nat.le_refl 1
  · exact most _ _
  · exact most _ _
  · exact most _ _
  · split <;> decide

/-- In every interleaving, from where the flag is set and as long as no start clears it, a worker receives a
    message only if it was past the test of the flag, makes one only of this message or of the one it was
    about to hand on, and sends at most once on every socket, be it this message or one made before. -/
theorem flag_quiets (qt : Qt) (m_handler : Nat) (addr : { a : Nat // 0 < a }) (before after : List Turn) (s s' : State)
    (reached : run (step qt) (whole (construct m_handler addr)) before = some s) (flag : s.process._stop = true)
    (keeps : Meets (step qt) KeepsFlag s after) (executed : run (step qt) s after = some s') (k : Nat) :
    ((trace (step qt) received s after).filterMap (ofWorker k)).length ≤ mayReceive (position k s) ∧
      ((trace (step qt) (made qt) s after).filterMap (ofWorker k)).length ≤ mayMake (position k s) ∧
      ∀ n, ((trace (step qt) calls s after).filterMap (sentBy k (.socket n))).length ≤ 1 := by
  have kept : ∀ s turn s', s.process._stop = true → KeepsFlag s turn → step qt s turn = some s' →
      s'.process._stop = true := fun _ _ _ => step_flagged
  have receives := run_spent adds_le (fun s => mayReceive (position k s)) kept
    (fun _ _ _ flag _ taken => (step_quiets flag taken).1) flag keeps executed
  have makes := run_spent adds_le (fun s => mayMake (position k s)) kept
    (fun _ _ _ flag _ taken => (step_quiets flag taken).2) flag keeps executed
  rw [← trace_filterMap] at receives makes
  refine ⟨by omega,by omega,?_⟩
  intro n
  have ordered : Ordered n s :=
    run_preserved (fun _ _ _ ordered taken => step_ordered ordered taken) (construct_ordered n m_handler addr) reached
  have passes := (run_passes ordered executed k).length_le
  have once := pass_or_make n s (position k s)
  rw [List.length_append,List.length_append] at passes
  omega

/-- A worker is about to fetch a socket when a stop sets the flag. -/
def untilFlag : List Turn := Races.untilFetch ++ [.command .stop .granted]

/-- It sends on this socket and leaves its loop, the stop finishes, and a start begins. -/
def afterFlag : List Turn :=
  List.replicate 5 (.worker 0 (.granted none)) ++ List.replicate 6 (.advance .granted) ++ [.command (.start []) .granted]

theorem flag_quiets_fetch : ∃ s s',
    run (step (.table [])) (whole (construct 0 ⟨1,Nat.one_pos⟩)) untilFlag = some s ∧
    run (step (.table [])) s afterFlag = some s' ∧ s.process.zmq.sends = [] ∧ s'.process.zmq.sends.length = 1 ∧
    position 0 s' = some .closeHandler ∧ s'.command = .startFlag [] ∧
    ((trace (step (.table [])) calls s afterFlag).filterMap (sentBy 0 (.socket 0))).length ≤ 1 := by
  refine ⟨_,_,rfl,rfl,rfl,rfl,rfl,rfl,?_⟩
  refine (flag_quiets (.table []) 0 ⟨1,Nat.one_pos⟩ untilFlag afterFlag _ _ rfl rfl ?_ rfl 0).2.2 0
  iterate 5 refine meets_cons trivial rfl ?_
  iterate 6 refine meets_cons nofun rfl ?_
  exact meets_cons trivial rfl trivial

end ZmqOut.Intake
