import ZmqOut.Operations

/-!
What the operations of the threads do to the vector of the sockets, to the sockets
themselves and to the positions of the workers, whichever operation it is.
-/
namespace ZmqOut.Turns
open ZmqOut.DataStream ZmqOut.Variant ZmqOut.Sockets ZmqOut.Steps ZmqOut.Threads ZmqOut.Operations
open ZmqOut.Server hiding step

/-- The position is between the test of an index and the return of zmq_msg_send. -/
def Underway : WorkerPc → Prop
  | .fetch _ _ | .send _ _ _ => True
  | _ => False

/-- The command thread holds this pointer to a socket of the registry. -/
def Holds : CommandPc → VoidPtr → Prop
  | .subscribeStore _ push, sock => push = sock
  | .stopClose _ push_sock, sock => push_sock = sock
  | _, _ => False

/-- The two states agree on the vector and on the sockets of ZeroMQ. -/
structure Same (s s' : State) : Prop where
  sockets : s'.process.server.subscribers_sockets = s.process.server.subscribers_sockets
  created : s'.process.zmq.created = s.process.zmq.created
  closes : s'.process.zmq.closes = s.process.zmq.closes

/-- What a turn does to the vector, the sockets and the positions of the workers. -/
inductive Effect (s s' : State) : Turn → Prop where
  | quiet {turn : Turn} (same : Same s s') (workers : s'.process.workers = s.process.workers)
      (holds : ∀ sock, Holds s'.command sock → sock ∈ s.process.server.subscribers_sockets) : Effect s s' turn
  | thread {turn : Turn} {w : Worker} (same : Same s s') (workers : s'.process.workers = s.process.workers ++ [w])
      (pc : w.pc = .socket) (pull : w.pull = .null) (command : s'.command = .idle) : Effect s s' turn
  | socket {answers : Answers} {endpoint : StdString} (vector : s'.process.server = s.process.server)
      (zmq : s'.process.zmq = (s.process.zmq.zmq_socket s.process.server.push_context .ZMQ_PUSH answers.socket).2)
      (workers : s'.process.workers = s.process.workers)
      (command : s'.command = .subscribeStore endpoint
        (s.process.zmq.zmq_socket s.process.server.push_context .ZMQ_PUSH answers.socket).1) :
      Effect s s' (.advance answers)
  | store {answers : Answers} {endpoint : StdString} {push : VoidPtr} (command : s.command = .subscribeStore endpoint push)
      (vector : s'.process.server.subscribers_sockets = s.process.server.subscribers_sockets ++ [push])
      (zmq : s'.process.zmq = s.process.zmq) (workers : s'.process.workers = s.process.workers)
      (command' : s'.command = .subscribeBind endpoint push) : Effect s s' (.advance answers)
  | close {answers : Answers} {i : Nat} {push_sock : VoidPtr} (command : s.command = .stopClose i push_sock)
      (vector : s'.process.server = s.process.server) (zmq : s'.process.zmq = s.process.zmq.zmq_close push_sock)
      (workers : s'.process.workers = s.process.workers) (command' : s'.command = .stopTest (i + 1)) :
      Effect s s' (.advance answers)
  | clear {answers : Answers} (command : s.command = .stopClear)
      (vector : s'.process.server.subscribers_sockets = []) (zmq : s'.process.zmq = s.process.zmq)
      (workers : s'.process.workers = s.process.workers) (command' : s'.command = .stopForget) :
      Effect s s' (.advance answers)
  | move {k : Nat} {input : Input} {w w' : Worker} (there : s.process.workers[k]? = some w) (same : Same s s')
      (workers : s'.process.workers = s.process.workers.set k w') (pull : w'.pull = w.pull)
      (away : ¬ Underway w'.pc) (command : s'.command = s.command) :
      Effect s s' (.worker k input)
  | pass {k : Nat} {input : Input} {w w' : Worker} {data : List UInt8} {i : Nat}
      (there : s.process.workers[k]? = some w) (pc : w.pc = .loop data i) (same : Same s s')
      (inside : i < s.process.server.subscribers_sockets.length)
      (workers : s'.process.workers = s.process.workers.set k w') (pull : w'.pull = w.pull)
      (pc' : w'.pc = .fetch data i) (command : s'.command = s.command) : Effect s s' (.worker k input)
  | fetch {k : Nat} {input : Input} {w w' : Worker} {data : List UInt8} {i : Nat} {sub_sock : VoidPtr}
      (there : s.process.workers[k]? = some w) (pc : w.pc = .fetch data i) (same : Same s s')
      (found : s.process.server.subscribers_sockets[i]? = some sub_sock)
      (workers : s'.process.workers = s.process.workers.set k w') (pull : w'.pull = w.pull)
      (pc' : w'.pc = .send data i sub_sock) (command : s'.command = s.command) : Effect s s' (.worker k input)
  | openPull {k : Nat} {input : Input} {w w' : Worker} (there : s.process.workers[k]? = some w)
      (vector : s'.process.server = s.process.server)
      (zmq : s'.process.zmq = (s.process.zmq.zmq_socket w.context .ZMQ_PULL input.socket).2)
      (workers : s'.process.workers = s.process.workers.set k w') (pc' : w'.pc = .connect)
      (pull : w'.pull = (s.process.zmq.zmq_socket w.context .ZMQ_PULL input.socket).1)
      (command : s'.command = s.command) : Effect s s' (.worker k input)
  | closePull {k : Nat} {input : Input} {w w' : Worker} (there : s.process.workers[k]? = some w)
      (vector : s'.process.server = s.process.server) (zmq : s'.process.zmq = s.process.zmq.zmq_close w.pull)
      (workers : s'.process.workers = s.process.workers.set k w') (pc' : w'.pc = .closeHandler)
      (pull : w'.pull = w.pull) (command : s'.command = s.command) : Effect s s' (.worker k input)

/-- The operations of a worker by what they do to the vector, the sockets and its position. -/
theorem works_effect {qt : Qt} {k : Nat} {input : Input} {s : State} {w w' : Worker} {p : Process}
    (there : s.process.workers[k]? = some w) (works : Works s.process qt input w w' p) :
    Effect s ⟨setWorker k w' p,s.command⟩ (.worker k input) := by
  cases works with
  | socket pc => exact .openPull there rfl rfl rfl rfl rfl rfl
  | closePull pc => exact .closePull there rfl rfl rfl rfl rfl rfl
  | pass pc inside => exact .pass there pc ⟨rfl,rfl,rfl⟩ inside rfl rfl rfl rfl
  | fetch pc found => exact .fetch there pc ⟨rfl,rfl,rfl⟩ found rfl rfl rfl rfl
  | test pc =>
    refine .move there ⟨rfl,rfl,rfl⟩ rfl rfl ?_ rfl
    cases s.process._stop <;> exact id
  | connect pc | options pc | timeout pc _ | receive pc _ | handle pc | discard pc | skip pc _ | enter pc _ | leave pc _
  | send pc | closeHandler pc => exact .move there ⟨rfl,rfl,rfl⟩ rfl rfl id rfl

theorem step_effect {qt : Qt} {turn : Turn} {s s' : State} (taken : step qt s turn = some s') : Effect s s' turn := by
  cases step_operation taken with
  | config | start => exact .quiet ⟨by simp,by simp,by simp⟩ (by simp) nofun
  | duplicate | subscribe _ | stop | subscribePush | subscribeBind | startFlag | stopPass _ | stopLeave _ | stopForget =>
    exact .quiet ⟨rfl,rfl,rfl⟩ rfl nofun
  | subscribeSocket => exact .socket rfl rfl rfl rfl
  | subscribeStore => exact .store rfl rfl rfl rfl rfl
  | startThread => exact .thread ⟨rfl,rfl,rfl⟩ rfl rfl rfl rfl
  | stopRead found =>
    refine .quiet ⟨rfl,rfl,rfl⟩ rfl ?_
    rintro sock rfl
    exact List.mem_of_getElem? found
  | stopClose => exact .close rfl rfl rfl rfl rfl
  | stopClear => exact .clear rfl rfl rfl rfl rfl
  | worker there works => exact works_effect there works

end ZmqOut.Turns
