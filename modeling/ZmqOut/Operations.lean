import ZmqOut.Threads

/-!
The operations of the threads one by one, each with the state it leads to. What a
turn does is looked up here, so that nothing below has to open the functions of
the model again.
-/
namespace ZmqOut.Operations
open ZmqOut.DataStream ZmqOut.Variant ZmqOut.Sockets ZmqOut.Steps ZmqOut.Threads
open ZmqOut.Server hiding step

/-- The operations of a worker. -/
inductive Works (p : Process) (qt : Qt) (input : Input) (w : Worker) : Worker → Process → Prop where
  | socket (pc : w.pc = .socket) : Works p qt input w
      { w with pc := .connect,pull := (p.zmq.zmq_socket w.context .ZMQ_PULL input.socket).1 }
      { p with zmq := (p.zmq.zmq_socket w.context .ZMQ_PULL input.socket).2 }
  | connect (pc : w.pc = .connect) : Works p qt input w { w with pc := .options }
      { p with zmq := p.zmq.zmq_connect w.pull (c_str w.endpoint) input.connect }
  | options (pc : w.pc = .options) : Works p qt input w { w with pc := .test } p
  | test (pc : w.pc = .test) : Works p qt input w { w with pc := if p._stop then .closePull else .recv } p
  | timeout (pc : w.pc = .recv) (message : input.message = none) : Works p qt input w { w with pc := .test } p
  | receive {bytes : List UInt8} (pc : w.pc = .recv) (message : input.message = some bytes) :
      Works p qt input w { w with pc := .handle (decode bytes).1 } p
  | handle {df : data_frame} (pc : w.pc = .handle df) :
      Works p qt input w { w with pc := .guard (some (payload qt input.duration)) } p
  | discard (pc : w.pc = .guard none) : Works p qt input w { w with pc := .test } p
  | skip {data : List UInt8} (pc : w.pc = .guard (some data)) (empty : p.server.subscribers_sockets = []) :
      Works p qt input w { w with pc := .test } p
  | enter {data : List UInt8} (pc : w.pc = .guard (some data)) (nonempty : p.server.subscribers_sockets ≠ []) :
      Works p qt input w { w with pc := .loop data 0 } p
  | pass {data : List UInt8} {i : Nat} (pc : w.pc = .loop data i) (inside : i < p.server.subscribers_sockets.length) :
      Works p qt input w { w with pc := .fetch data i } p
  | leave {data : List UInt8} {i : Nat} (pc : w.pc = .loop data i)
      (beyond : ¬ i < p.server.subscribers_sockets.length) : Works p qt input w { w with pc := .test } p
  | fetch {data : List UInt8} {i : Nat} {sub_sock : VoidPtr} (pc : w.pc = .fetch data i)
      (found : p.server.subscribers_sockets[i]? = some sub_sock) :
      Works p qt input w { w with pc := .send data i sub_sock } p
  | send {data : List UInt8} {i : Nat} {sub_sock : VoidPtr} (pc : w.pc = .send data i sub_sock) :
      Works p qt input w { w with pc := .loop data (i + 1) } { p with zmq := p.zmq.zmq_msg_send data sub_sock (input.rc i) }
  | closePull (pc : w.pc = .closePull) : Works p qt input w { w with pc := .closeHandler }
      { p with zmq := p.zmq.zmq_close w.pull }
  | closeHandler (pc : w.pc = .closeHandler) : Works p qt input w { w with pc := .done } p

/-- The operations of all threads. -/
inductive Operation (qt : Qt) : State → Turn → State → Prop where
  | config {p : Process} {m : QVariantMap} {answers : Answers} :
      Operation qt ⟨p,.idle⟩ (.command (.config m) answers) ⟨p.ensureHandler answers.memory,.idle⟩
  | duplicate {p : Process} {m : QVariantMap} {answers : Answers} :
      Operation qt ⟨p,.idle⟩ (.command (.subscribe m) answers) ⟨p,.idle⟩
  | subscribe {p : Process} {m : QVariantMap} {answers : Answers}
      (fresh : Process.endpointOf qt m ∉ p.server.subscribers) :
      Operation qt ⟨p,.idle⟩ (.command (.subscribe m) answers) ⟨p,.subscribePush (Process.endpointOf qt m)⟩
  | start {p : Process} {m : QVariantMap} {answers : Answers} :
      Operation qt ⟨p,.idle⟩ (.command (.start m) answers)
        ⟨p.ensureHandler answers.memory,.startFlag (Process.endpointOf qt m)⟩
  | stop {p : Process} {answers : Answers} :
      Operation qt ⟨p,.idle⟩ (.command .stop answers) ⟨{ p with _stop := true },.stopTest 0⟩
  | subscribePush {p : Process} {endpoint : StdString} {answers : Answers} :
      Operation qt ⟨p,.subscribePush endpoint⟩ (.advance answers)
        ⟨{ p with server.subscribers := p.server.subscribers ++ [endpoint] },.subscribeSocket endpoint⟩
  | subscribeSocket {p : Process} {endpoint : StdString} {answers : Answers} :
      Operation qt ⟨p,.subscribeSocket endpoint⟩ (.advance answers)
        ⟨{ p with zmq := (p.zmq.zmq_socket p.server.push_context .ZMQ_PUSH answers.socket).2 },
          .subscribeStore endpoint (p.zmq.zmq_socket p.server.push_context .ZMQ_PUSH answers.socket).1⟩
  | subscribeStore {p : Process} {endpoint : StdString} {push : VoidPtr} {answers : Answers} :
      Operation qt ⟨p,.subscribeStore endpoint push⟩ (.advance answers)
        ⟨{ p with server.subscribers_sockets := p.server.subscribers_sockets ++ [push] },.subscribeBind endpoint push⟩
  | subscribeBind {p : Process} {endpoint : StdString} {push : VoidPtr} {answers : Answers} :
      Operation qt ⟨p,.subscribeBind endpoint push⟩ (.advance answers)
        ⟨{ p with zmq := p.zmq.zmq_bind push (c_str endpoint) answers.bind },.idle⟩
  | startFlag {p : Process} {endpoint : StdString} {answers : Answers} :
      Operation qt ⟨p,.startFlag endpoint⟩ (.advance answers) ⟨{ p with _stop := false },.startThread endpoint⟩
  | startThread {p : Process} {endpoint : StdString} {answers : Answers} :
      Operation qt ⟨p,.startThread endpoint⟩ (.advance answers)
        ⟨{ p with
          server.m_thread := some p.workers.length
          workers := p.workers ++ [⟨.socket,p.server.pull_context,endpoint,p.server.m_handler,.null⟩] },.idle⟩
  | stopPass {p : Process} {i : Nat} {answers : Answers} (inside : i < p.server.subscribers_sockets.length) :
      Operation qt ⟨p,.stopTest i⟩ (.advance answers) ⟨p,.stopRead i⟩
  | stopLeave {p : Process} {i : Nat} {answers : Answers} (beyond : ¬ i < p.server.subscribers_sockets.length) :
      Operation qt ⟨p,.stopTest i⟩ (.advance answers) ⟨p,.stopClear⟩
  | stopRead {p : Process} {i : Nat} {push_sock : VoidPtr} {answers : Answers}
      (found : p.server.subscribers_sockets[i]? = some push_sock) :
      Operation qt ⟨p,.stopRead i⟩ (.advance answers) ⟨p,.stopClose i push_sock⟩
  | stopClose {p : Process} {i : Nat} {push_sock : VoidPtr} {answers : Answers} :
      Operation qt ⟨p,.stopClose i push_sock⟩ (.advance answers)
        ⟨{ p with zmq := p.zmq.zmq_close push_sock },.stopTest (i + 1)⟩
  | stopClear {p : Process} {answers : Answers} :
      Operation qt ⟨p,.stopClear⟩ (.advance answers) ⟨{ p with server.subscribers_sockets := [] },.stopForget⟩
  | stopForget {p : Process} {answers : Answers} :
      Operation qt ⟨p,.stopForget⟩ (.advance answers) ⟨{ p with server.subscribers := [] },.idle⟩
  | worker {p p' : Process} {command : CommandPc} {k : Nat} {input : Input} {w w' : Worker}
      (there : p.workers[k]? = some w) (works : Works p qt input w w' p') :
      Operation qt ⟨p,command⟩ (.worker k input) ⟨setWorker k w' p',command⟩

theorem begin_operation {qt : Qt} {c : Command} {answers : Answers} {p : Process} {s' : State}
    (taken : begin qt c answers p = some s') : Operation qt ⟨p,.idle⟩ (.command c answers) s' := by
  cases c with
  | config m =>
    obtain ⟨⟨r,p'⟩,called,rfl⟩ := Option.map_eq_some_iff.mp taken
    obtain ⟨-,rfl,-⟩ := config_some.mp called
    exact .config
  | subscribe m =>
    rw [begin_subscribe] at taken
    split at taken
    · cases taken
      exact .duplicate
    · rename_i registers
      cases taken
      exact .subscribe fun member => registers ⟨List.ne_nil_of_mem member,.inl member⟩
  | start m =>
    cases taken
    exact .start
  | stop =>
    cases taken
    exact .stop

theorem advance_operation {qt : Qt} {answers : Answers} {p : Process} {command : CommandPc} {s' : State}
    (taken : advance answers p command = some s') : Operation qt ⟨p,command⟩ (.advance answers) s' := by
  cases command with
  | idle => cases taken
  | subscribePush endpoint => cases taken; exact .subscribePush
  | subscribeSocket endpoint => cases taken; exact .subscribeSocket
  | subscribeStore endpoint push => cases taken; exact .subscribeStore
  | subscribeBind endpoint push => cases taken; exact .subscribeBind
  | startFlag endpoint => cases taken; exact .startFlag
  | startThread endpoint => cases taken; exact .startThread
  | stopTest i =>
    cases taken
    by_cases inside : i < p.server.subscribers_sockets.length
    · rw [if_pos inside]
      exact .stopPass inside
    · rw [if_neg inside]
      exact .stopLeave inside
  | stopRead i =>
    obtain ⟨push_sock,found,rfl⟩ := Option.map_eq_some_iff.mp taken
    exact .stopRead found
  | stopClose i push_sock => cases taken; exact .stopClose
  | stopClear => cases taken; exact .stopClear
  | stopForget => cases taken; exact .stopForget

theorem vectorOf_some {w : Worker} {p : Process} {sockets : List VoidPtr} (vector : vectorOf w p = some sockets) :
    sockets = p.server.subscribers_sockets := by
  obtain ⟨h,-,denoted⟩ := Option.bind_eq_some_iff.mp vector
  rw [Process.vector?] at denoted
  split at denoted
  · exact (Option.some.inj denoted).symm
  · cases denoted

theorem work_operation {qt : Qt} {input : Input} {p p' : Process} {w w' : Worker}
    (moved : work qt w input p = some (w',p')) : Works p qt input w w' p' := by
  cases pc : w.pc with
  | socket => simp only [work,do_start,pc] at moved; cases moved; exact .socket pc
  | connect => simp only [work,do_start,pc] at moved; cases moved; exact .connect pc
  | options => simp only [work,do_start,pc] at moved; cases moved; exact .options pc
  | test => simp only [work,do_start,pc] at moved; cases moved; exact .test pc
  | recv =>
    simp only [work,do_start,pc] at moved
    cases message : input.message with
    | none =>
      simp only [message] at moved
      cases moved
      exact .timeout pc message
    | some bytes =>
      simp only [message] at moved
      cases moved
      exact .receive pc message
  | handle df =>
    simp only [work,pc] at moved
    obtain ⟨sockets,-,same⟩ := Option.map_eq_some_iff.mp moved
    cases same
    exact .handle pc
  | guard data =>
    cases data with
    | none => simp only [work,pc] at moved; cases moved; exact .discard pc
    | some data =>
      simp only [work,pc] at moved
      obtain ⟨sockets,vector,same⟩ := Option.map_eq_some_iff.mp moved
      have server := vectorOf_some vector
      subst server
      cases same
      by_cases empty : p.server.subscribers_sockets = []
      · rw [if_pos (by rw [empty]; rfl)]
        exact .skip pc empty
      · rw [if_neg (by simpa using empty)]
        exact .enter pc empty
  | loop data i =>
    simp only [work,pc] at moved
    obtain ⟨sockets,vector,same⟩ := Option.map_eq_some_iff.mp moved
    have server := vectorOf_some vector
    subst server
    cases same
    by_cases inside : i < p.server.subscribers_sockets.length
    · rw [if_pos inside]
      exact .pass pc inside
    · rw [if_neg inside]
      exact .leave pc inside
  | fetch data i =>
    simp only [work,pc] at moved
    obtain ⟨sockets,vector,fetched⟩ := Option.bind_eq_some_iff.mp moved
    have server := vectorOf_some vector
    subst server
    obtain ⟨sub_sock,found,same⟩ := Option.map_eq_some_iff.mp fetched
    cases same
    exact .fetch pc found
  | send data i sub_sock => simp only [work,pc] at moved; cases moved; exact .send pc
  | closePull => simp only [work,do_start,pc] at moved; cases moved; exact .closePull pc
  | closeHandler =>
    simp only [work,do_start,pc] at moved
    obtain ⟨h,-,same⟩ := Option.map_eq_some_iff.mp moved
    cases same
    exact .closeHandler pc
  | done => simp only [work,do_start,pc] at moved; cases moved

/-- Every turn is one of the operations. -/
theorem step_operation {qt : Qt} {turn : Turn} {s s' : State} (taken : step qt s turn = some s') :
    Operation qt s turn s' := by
  obtain ⟨p,command⟩ := s
  cases turn with
  | command c answers =>
    rw [step] at taken
    split at taken
    · rename_i idle
      cases idle
      exact begin_operation taken
    · cases taken
  | advance answers => exact advance_operation taken
  | worker k input =>
    obtain ⟨w,there,moved⟩ := Option.bind_eq_some_iff.mp taken
    obtain ⟨⟨w',p'⟩,worked,rfl⟩ := Option.map_eq_some_iff.mp moved
    exact .worker there (work_operation worked)

end ZmqOut.Operations
