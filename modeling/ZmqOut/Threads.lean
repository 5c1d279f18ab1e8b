import ZmqOut.Runs
import ZmqOut.Steps

/-!
The node with its commands and calls of handle taken apart: one operation on a
vector or one call of ZeroMQ at a time, the command thread and the workers in
any order.
-/
namespace ZmqOut.Threads
open ZmqOut.Runs ZmqOut.DataStream ZmqOut.Variant ZmqOut.Sockets ZmqOut.Server ZmqOut.Steps

/-- Where the command thread is; nothing of config is seen half done by a worker. -/
inductive CommandPc where
  | idle
  | subscribePush (endpoint : StdString)
  | subscribeSocket (endpoint : StdString)
  | subscribeStore (endpoint : StdString) (push : VoidPtr)
  | subscribeBind (endpoint : StdString) (push : VoidPtr)
  | startFlag (endpoint : StdString)
  | startThread (endpoint : StdString)
  | stopTest (i : Nat)
  | stopRead (i : Nat)
  | stopClose (i : Nat) (push_sock : VoidPtr)
  | stopClear
  | stopForget
deriving DecidableEq, Repr

structure State where
  process : Process
  command : CommandPc

/-- Whose operation is next. -/
inductive Turn where
  | command (c : Command) (answers : Answers)
  | advance (answers : Answers)
  | worker (k : Nat) (input : Input)

/-- The first operation of a command. -/
def begin (qt : Qt) (c : Command) (answers : Answers) (p : Process) : Option State :=
  match c with
  | .config configMap => (p.config qt configMap answers).map fun (_,p) => ⟨p,.idle⟩
  | .subscribe commandMap =>
    let endpoint := Process.endpointOf qt commandMap
    if p.server.subscribers.length > 0 &&
        Process.derefEquals p.server.subscribers (Process.find p.server.subscribers endpoint) endpoint answers.pastEnd
      then some ⟨p,.idle⟩
    else some ⟨p,.subscribePush endpoint⟩
  | .start commandMap => some ⟨p.ensureHandler answers.memory,.startFlag (Process.endpointOf qt commandMap)⟩
  | .stop => some ⟨{ p with _stop := true },.stopTest 0⟩

/-- The next operation of the command that is under way. -/
def advance (answers : Answers) (p : Process) : CommandPc → Option State
  | .idle => none
  | .subscribePush endpoint =>
    some ⟨{ p with server.subscribers := p.server.subscribers ++ [endpoint] },.subscribeSocket endpoint⟩
  | .subscribeSocket endpoint =>
    let (push,zmq) := p.zmq.zmq_socket p.server.push_context .ZMQ_PUSH answers.socket
    some ⟨{ p with zmq := zmq },.subscribeStore endpoint push⟩
  | .subscribeStore endpoint push =>
    some ⟨{ p with server.subscribers_sockets := p.server.subscribers_sockets ++ [push] },.subscribeBind endpoint push⟩
  | .subscribeBind endpoint push =>
    some ⟨{ p with zmq := p.zmq.zmq_bind push (c_str endpoint) answers.bind },.idle⟩
  | .startFlag endpoint => some ⟨{ p with _stop := false },.startThread endpoint⟩
  | .startThread endpoint =>
    some ⟨{ p with
      server.m_thread := some p.workers.length
      workers := p.workers ++ [⟨.socket,p.server.pull_context,endpoint,p.server.m_handler,.null⟩] },.idle⟩
  | .stopTest i => some ⟨p,if i < p.server.subscribers_sockets.length then .stopRead i else .stopClear⟩
  | .stopRead i => p.server.subscribers_sockets[i]?.map fun push_sock => ⟨p,.stopClose i push_sock⟩
  | .stopClose i push_sock => some ⟨{ p with zmq := p.zmq.zmq_close push_sock },.stopTest (i + 1)⟩
  | .stopClear => some ⟨{ p with server.subscribers_sockets := [] },.stopForget⟩
  | .stopForget => some ⟨{ p with server.subscribers := [] },.idle⟩

/-- The vector behind the handler of a worker. -/
def vectorOf (w : Worker) (p : Process) : Option (List VoidPtr) :=
  (p.handler? w.handler).bind fun h => p.vector? h.subscribers_sockets

/-- The next operation of a worker. An index out of range ends the program. -/
def work (qt : Qt) (w : Worker) (input : Input) (p : Process) : Option (Worker × Process) :=
  match w.pc with
  | .handle df => (vectorOf w p).map fun _ => ({ w with pc := .guard (ZmqOutHandler.doHandle qt df input.duration) },p)
  | .guard none => some ({ w with pc := .test },p)
  | .guard (some data) => (vectorOf w p).map fun subscribers_sockets =>
    ({ w with pc := if subscribers_sockets.isEmpty then .test else .loop data 0 },p)
  | .loop data i => (vectorOf w p).map fun subscribers_sockets =>
    ({ w with pc := if i < subscribers_sockets.length then .fetch data i else .test },p)
  | .fetch data i => (vectorOf w p).bind fun subscribers_sockets => subscribers_sockets[i]?.map fun sub_sock =>
    ({ w with pc := .send data i sub_sock },p)
  | .send data i sub_sock =>
    some ({ w with pc := .loop data (i + 1) },{ p with zmq := p.zmq.zmq_msg_send data sub_sock (input.rc i) })
  | _ => do_start qt w input p

def step (qt : Qt) (s : State) : Turn → Option State
  | .command c answers => if s.command = .idle then begin qt c answers s.process else none
  | .advance answers => advance answers s.process s.command
  | .worker k input => s.process.workers[k]?.bind fun w =>
    (work qt w input s.process).map fun (w,p) => ⟨setWorker k w p,s.command⟩

/-! ### Every atomic step is performed -/

/-- The command thread between two commands. -/
def whole (p : Process) : State := ⟨p,.idle⟩

/-- The node while worker `k` is at this position and ZeroMQ is in this state. -/
def working (k : Nat) (w : Worker) (p : Process) (pc : WorkerPc) (z : Zmq) : State :=
  whole (setWorker k { w with pc := pc } { p with zmq := z })

section
variable {qt : Qt} {p : Process} {k : Nat} {w : Worker}

theorem working_step {pc : WorkerPc} {z : Zmq} {input : Input} (inside : k < p.workers.length) :
    step qt (working k w p pc z) (.worker k input) =
      (work qt { w with pc := pc } input (setWorker k { w with pc := pc } { p with zmq := z })).map
        fun (w,p) => whole (setWorker k w p) := by
  have there : (setWorker k { w with pc := pc } { p with zmq := z }).workers[k]? = some { w with pc := pc } :=
    setWorker_get inside
  rw [step,working,whole,there]
  rfl

/-- The operations of handle on a vector change the position alone. -/
theorem working_moves {pc pc' : WorkerPc} {z z' : Zmq} {input : Input} (inside : k < p.workers.length)
    (works : work qt { w with pc := pc } input (setWorker k { w with pc := pc } { p with zmq := z }) =
      some ({ w with pc := pc' },setWorker k { w with pc := pc } { p with zmq := z' })) :
    step qt (working k w p pc z) (.worker k input) = some (working k w p pc' z') := by
  rw [working_step inside,works]
  simp [working,setWorker]

/-- The position of a worker and the state of ZeroMQ do not matter for the vector behind
    its handler. -/
theorem vectorOf_working {pc pc' : WorkerPc} {z : Zmq} :
    vectorOf { w with pc := pc } (setWorker k { w with pc := pc' } { p with zmq := z }) = vectorOf w p := rfl

/-- What is left of a vector from an index inside it. -/
theorem drop_cons {sockets rest : List VoidPtr} {sock : VoidPtr} {i : Nat} (left : sockets.drop i = sock :: rest) :
    i < sockets.length ∧ sockets[i]? = some sock ∧ sockets.drop (i + 1) = rest := by
  have here : sockets[i]? = some sock := by
    rw [← List.head?_drop,left]
    rfl
  refine ⟨(List.getElem?_eq_some_iff.mp here).1,here,?_⟩
  rw [← List.tail_drop,left]
  rfl

theorem drop_nil {sockets : List VoidPtr} {i : Nat} (left : sockets.drop i = []) : ¬ i < sockets.length :=
  Nat.not_lt_of_le (List.drop_eq_nil_iff.mp left)

/-- The loop of stop closes what is left of the vector. -/
theorem closeLoop_performed (answers : Answers) (rest : List VoidPtr) (i : Nat)
    (left : p.server.subscribers_sockets.drop i = rest) :
    ∃ turns, run (step qt) ⟨p,.stopTest i⟩ turns =
      some ⟨{ p with zmq := Process.closeLoop rest p.zmq },.stopClear⟩ := by
  induction rest generalizing i p with
  | nil =>
    have beyond := drop_nil left
    exact ⟨[.advance answers],by simp [step,advance,beyond,Process.closeLoop]⟩
  | cons push_sock rest ih =>
    obtain ⟨inside,here,onward⟩ := drop_cons left
    obtain ⟨turns,executed⟩ := @ih { p with zmq := p.zmq.zmq_close push_sock } (i + 1) onward
    refine ⟨.advance answers :: .advance answers :: .advance answers :: turns,?_⟩
    simp only [run_cons,step,advance,inside,↓reduceIte,Option.bind_some,here,Option.map_some]
    exact executed

/-- The send loop of a worker sends on what is left of the vector. -/
theorem sendLoop_performed {data : List UInt8} {input : Input} (rest : List VoidPtr) (i : Nat) (z : Zmq)
    (inside : k < p.workers.length) (vector : vectorOf w p = some p.server.subscribers_sockets)
    (left : p.server.subscribers_sockets.drop i = rest) :
    ∃ turns, run (step qt) (working k w p (.loop data i) z) turns =
      some (working k w p .test (Process.sendLoop data input.rc i rest z)) := by
  induction rest generalizing i z with
  | nil =>
    have beyond := drop_nil left
    have tested : step qt (working k w p (.loop data i) z) (.worker k input) = some (working k w p .test z) :=
      working_moves inside (by simp only [work,vectorOf_working,vector,beyond,↓reduceIte,Option.map_some])
    exact ⟨[.worker k input],by rw [run_taken tested]; rfl⟩
  | cons sub_sock rest ih =>
    obtain ⟨bound,here,onward⟩ := drop_cons left
    obtain ⟨turns,executed⟩ := ih (i + 1) (z.zmq_msg_send data sub_sock (input.rc i)) onward
    have tested : step qt (working k w p (.loop data i) z) (.worker k input) = some (working k w p (.fetch data i) z) :=
      working_moves inside (by simp only [work,vectorOf_working,vector,bound,↓reduceIte,Option.map_some])
    have fetched : step qt (working k w p (.fetch data i) z) (.worker k input) =
        some (working k w p (.send data i sub_sock) z) :=
      working_moves inside (by simp only [work,vectorOf_working,vector,here,Option.map_some,Option.bind_some])
    have sent : step qt (working k w p (.send data i sub_sock) z) (.worker k input) =
        some (working k w p (.loop data (i + 1)) (z.zmq_msg_send data sub_sock (input.rc i))) :=
      working_moves inside rfl
    refine ⟨.worker k input :: .worker k input :: .worker k input :: turns,?_⟩
    rw [run_taken tested,run_taken fetched,run_taken sent]
    exact executed

/-- A worker at its own position in the state of ZeroMQ as it is. -/
theorem working_whole (there : p.workers[k]? = some w) : working k w p w.pc p.zmq = whole p := by
  obtain ⟨inside,here⟩ := List.getElem?_eq_some_iff.mp there
  have same : p.workers.set k w = p.workers := by rw [← here,List.set_getElem_self]
  show whole { p with workers := p.workers.set k w } = whole p
  rw [same]

/-- The whole call of handle. -/
theorem handle_performed {input : Input} {df : data_frame} (there : p.workers[k]? = some w) (pc : w.pc = .handle df)
    (vector : vectorOf w p = some p.server.subscribers_sockets) :
    ∃ turns, run (step qt) (whole p) turns = some (working k w p .test
      (Process.sendLoop (payload qt input.duration) input.rc 0 p.server.subscribers_sockets p.zmq)) := by
  have inside := (List.getElem?_eq_some_iff.mp there).1
  have handled : step qt (working k w p (.handle df) p.zmq) (.worker k input) =
      some (working k w p (.guard (some (payload qt input.duration))) p.zmq) :=
    working_moves inside (by simp only [work,vectorOf_working,vector,Option.map_some]; rfl)
  have guarded : step qt (working k w p (.guard (some (payload qt input.duration))) p.zmq) (.worker k input) =
      some (working k w p (if p.server.subscribers_sockets.isEmpty then .test else .loop (payload qt input.duration) 0)
        p.zmq) :=
    working_moves inside (by simp only [work,vectorOf_working,vector,Option.map_some])
  rw [← working_whole there,pc]
  cases sockets : p.server.subscribers_sockets with
  | nil =>
    refine ⟨[.worker k input,.worker k input],?_⟩
    rw [run_taken handled,run_taken guarded,sockets]
    rfl
  | cons sub_sock rest =>
    obtain ⟨turns,executed⟩ := @sendLoop_performed qt p k w (payload qt input.duration) input _ 0 p.zmq inside vector rfl
    refine ⟨.worker k input :: .worker k input :: turns,?_⟩
    rw [run_taken handled,run_taken guarded,sockets]
    rw [sockets] at executed
    exact executed

end

theorem step_command {qt : Qt} (c : Command) (answers : Answers) (p : Process) :
    step qt (whole p) (.command c answers) = begin qt c answers p := by
  rw [step,whole,if_pos rfl]

theorem begin_subscribe {qt : Qt} (m : QVariantMap) (answers : Answers) (p : Process) :
    begin qt (.subscribe m) answers p =
      if p.server.subscribers ≠ [] ∧ (Process.endpointOf qt m ∈ p.server.subscribers ∨ answers.pastEnd = true)
        then some (whole p)
      else some ⟨p,.subscribePush (Process.endpointOf qt m)⟩ := by
  simp only [begin,duplicate_iff]
  rfl

/-- The whole stop. -/
theorem stop_performed {qt : Qt} (p : Process) (answers : Answers) :
    ∃ turns, run (step qt) (whole p) turns = some (whole p.stop) := by
  obtain ⟨turns,executed⟩ := @closeLoop_performed qt { p with _stop := true } answers _ 0 rfl
  refine ⟨.command .stop answers :: turns ++ [.advance answers,.advance answers],?_⟩
  rw [List.cons_append,run_cons,step_command]
  exact run_append_some.mpr ⟨_,executed,rfl⟩

/-- The whole registration. -/
theorem register_performed {qt : Qt} {p : Process} {m : QVariantMap} {answers : Answers}
    (registers : ¬ (p.server.subscribers ≠ [] ∧ (Process.endpointOf qt m ∈ p.server.subscribers ∨ answers.pastEnd = true))) :
    run (step qt) (whole p) (.command (.subscribe m) answers :: List.replicate 4 (.advance answers)) =
      some (whole (p.register (Process.endpointOf qt m) answers)) := by
  rw [run_cons,step_command,begin_subscribe,if_neg registers]
  rfl

/-- Outside handle the steps of a worker are the same. -/
theorem step_outside {qt : Qt} {p p' : Process} {k : Nat} {input : Input} {w : Worker} (there : p.workers[k]? = some w)
    (outside : work qt w input p = do_start qt w input p) (taken : Server.step qt p (.worker k input) = some p') :
    run (step qt) (whole p) [.worker k input] = some (whole p') := by
  rw [step_worker there] at taken
  obtain ⟨⟨w',q⟩,moved,rfl⟩ := Option.map_eq_some_iff.mp taken
  simp only [run_cons,step,whole,there,outside,moved,Option.map_some,Option.bind_some,run_nil]

/-- What the commands and workers do in one step each they also do operation by
    operation. -/
theorem step_performed {qt : Qt} {p p' : Process} {event : Event} (taken : Server.step qt p event = some p') :
    ∃ turns, run (step qt) (whole p) turns = some (whole p') := by
  cases step_cases taken with
  | @config m answers h found =>
    refine ⟨[.command (.config m) answers],?_⟩
    have called : p.config qt m answers = some (.ok (),p.ensureHandler answers.memory) :=
      config_some.mpr ⟨rfl,rfl,h,found⟩
    rw [run_cons,step_command,begin,called]
    rfl
  | @duplicate m answers nonempty again =>
    refine ⟨[.command (.subscribe m) answers],?_⟩
    rw [run_cons,step_command,begin_subscribe,if_pos ⟨nonempty,again⟩]
    rfl
  | @register m answers fresh registers =>
    refine ⟨_,register_performed ?_⟩
    intro again
    rw [subscribe_eq,if_pos again,register_eq] at registers
    have longer := congrArg (fun q => q.server.subscribers.length) registers
    simp at longer
  | @start m answers => exact ⟨[.command (.start m) answers,.advance answers,.advance answers],rfl⟩
  | @stop answers => exact stop_performed p answers
  | @handle k input w df h there pc found vector =>
    have behind : vectorOf w p = some p.server.subscribers_sockets := by simp [vectorOf,found,Process.vector?,vector]
    exact handle_performed there pc behind
  | openPull there pc | connect there pc | options there pc | test there pc | timeout there pc | receive there pc
  | closePull there pc | closeHandler there pc found =>
    exact ⟨_,step_outside there (by simp only [work,pc]) taken⟩

/-- Every run of the node with atomic steps is a run of it with single operations. -/
theorem atomic_run_performed {qt : Qt} {p p' : Process} {events : List Event}
    (executed : run (Server.step qt) p events = some p') : ∃ turns, run (step qt) (whole p) turns = some (whole p') :=
  run_simulated (fun _ _ _ taken => step_performed taken) executed

end ZmqOut.Threads
