import ZmqOut.Sockets

/-!
The node: its handler, the commands of the server and the workers that pull
frames. A command runs from its beginning to its end here, and so does one call
of handle; everything the environment decides is passed in.
-/
namespace ZmqOut.Server
open ZmqOut.DataStream ZmqOut.Variant ZmqOut.Sockets

/-- What a handler's parseConfig may throw. -/
inductive Exn where
  | int (e : Int)
  | string (e : StdString)
deriving DecidableEq, Repr

/-- A handler by the fields its methods use. BaseHandler declares a pointer of
    the same name, which it does not initialize and the methods here do not see. -/
structure ZmqOutHandler where
  base_subscribers_sockets : Nat
  subscribers_sockets : Nat
  m_unionall : Bool
  m_model_prefix : QString
deriving DecidableEq, Repr

namespace ZmqOutHandler

/-- ZmqOutHandler(), over memory with this content. -/
def new (memory : Nat) : ZmqOutHandler := ⟨memory,0,false,none⟩

def setSubscriberSocks (sub_socks : Nat) (h : ZmqOutHandler) : ZmqOutHandler :=
  { h with subscribers_sockets := sub_socks }

/-- Both values are read into local variables of the function. -/
def parseConfig (qt : Qt) (configMap : QVariantMap) (h : ZmqOutHandler) : Except Exn ZmqOutHandler :=
  let _unionall := (configMap.value "unionall").toBool
  let _model_prefix := (configMap.value "model_prefix").toString qt
  .ok h

/-- The frame is only looked at for the log; `duration` is the reading of the clock. -/
def doHandle (qt : Qt) (_df : data_frame) (duration : UInt64) : QByteArray :=
  let dataMap : QVariantMap := [(key "node_check_end",.double duration)]
  some (writeQString (some (qt.toJson dataMap)))

end ZmqOutHandler

/-- Where a worker is in do_start. The positions from `guard` to `send` are inside
    the call of handle. -/
inductive WorkerPc where
  | socket
  | connect
  | options
  | test
  | recv
  | handle (df : data_frame)
  | guard (data : QByteArray)
  | loop (data : List UInt8) (i : Nat)
  | fetch (data : List UInt8) (i : Nat)
  | send (data : List UInt8) (i : Nat) (sub_sock : VoidPtr)
  | closePull
  | closeHandler
  | done
deriving DecidableEq, Repr

/-- One call of do_start with its arguments. -/
structure Worker where
  pc : WorkerPc
  context : VoidPtr
  endpoint : StdString
  handler : Nat
  pull : VoidPtr
deriving DecidableEq, Repr

/-- The fields of TcpServer; pointers to handlers and vectors are addresses. -/
structure TcpServer where
  subscribers : List StdString
  subscribers_sockets : List VoidPtr
  pull_context : VoidPtr
  push_context : VoidPtr
  m_handler : Nat
  m_thread : Option Nat
  /-- The address of the field subscribers_sockets. -/
  socketsAddr : Nat
  socketsAddr_pos : 0 < socketsAddr
deriving DecidableEq

/-- The whole process: the server, the global flag, the handlers made so far (a
    pointer `a` denotes handler `a - 1`), ZeroMQ and the workers by thread number. -/
structure Process where
  server : TcpServer
  _stop : Bool
  heap : List ZmqOutHandler
  zmq : Zmq
  workers : List Worker
deriving DecidableEq

/-- What the calls of one command are answered with, and the result of the
    comparison in subscribe when find returned the past-the-end iterator. -/
structure Answers where
  pastEnd : Bool
  socket : Bool
  bind : Bool
  memory : Nat

/-- What one step of a worker is answered with. -/
structure Input where
  socket : Bool
  connect : Bool
  /-- The message that zmq_msg_recv took off the socket, or none when it timed out. -/
  message : Option (List UInt8)
  duration : UInt64
  rc : Nat → Int

/-- Every call of a command succeeds. -/
def Answers.granted : Answers := ⟨false,true,true,0⟩
/-- Every call of a worker succeeds; this is what zmq_msg_recv returns. -/
def Input.granted (message : Option (List UInt8)) : Input := ⟨true,true,message,0,fun _ => 0⟩

/-- The state after TcpServer::TcpServer, which leaves m_handler as the memory has it. -/
def construct (m_handler : Nat) (socketsAddr : { a : Nat // 0 < a }) : Process :=
  let zmq : Zmq := ⟨0,[],[],[],[],[]⟩
  let (push_context,zmq) := zmq.zmq_init
  let (pull_context,zmq) := zmq.zmq_init
  ⟨⟨[],[],pull_context,push_context,m_handler,none,socketsAddr.1,socketsAddr.2⟩,false,[],zmq,[]⟩

namespace Process

/-- The handler that a pointer denotes. -/
def handler? (a : Nat) (p : Process) : Option ZmqOutHandler :=
  match a with
  | 0 => none
  | k+1 => p.heap[k]?

/-- The vector that a pointer denotes; there is only the server's. -/
def vector? (a : Nat) (p : Process) : Option (List VoidPtr) :=
  if a = p.server.socketsAddr then some p.server.subscribers_sockets else none

/-- TcpServer::initHandler. -/
def initHandler (memory : Nat) (p : Process) : Nat × Process :=
  let handler := (ZmqOutHandler.new memory).setSubscriberSocks p.server.socketsAddr
  (p.heap.length + 1,{ p with heap := p.heap ++ [handler] })

/-- The test for a null m_handler at the head of config and of start. -/
def ensureHandler (memory : Nat) (p : Process) : Process :=
  if p.server.m_handler = 0 then
    let (handler,p) := p.initHandler memory
    { p with server.m_handler := handler }
  else p

/-- TcpServer::config; without a handler behind the pointer its behaviour is undefined. -/
def config (qt : Qt) (configMap : QVariantMap) (answers : Answers) (p : Process) :
    Option (Except Exn Unit × Process) :=
  let p := p.ensureHandler answers.memory
  match p.handler? p.server.m_handler with
  | none => none
  | some h =>
    match h.parseConfig qt configMap with
    | .ok h' => some (.ok (),{ p with heap := p.heap.set (p.server.m_handler - 1) h' })
    | .error e => some (.error e,p)

def endpointOf (qt : Qt) (commandMap : QVariantMap) : StdString :=
  toStdString ((commandMap.value "endpoint").toString qt)

/-- std::find over the endpoints; the length stands for the past-the-end iterator. -/
def find (subscribers : List StdString) (endpoint : StdString) : Nat :=
  subscribers.findIdx (· == endpoint)

/-- The comparison *it == endpoint. -/
def derefEquals (subscribers : List StdString) (it : Nat) (endpoint : StdString) (pastEnd : Bool) : Bool :=
  match subscribers[it]? with
  | some e => e == endpoint
  | none => pastEnd

/-- The else branch of subscribe. Neither return code is looked at. -/
def register (endpoint : StdString) (answers : Answers) (p : Process) : Process :=
  let p := { p with server.subscribers := p.server.subscribers ++ [endpoint] }
  let (push,zmq) := p.zmq.zmq_socket p.server.push_context .ZMQ_PUSH answers.socket
  let p := { p with server.subscribers_sockets := p.server.subscribers_sockets ++ [push] }
  { p with zmq := zmq.zmq_bind push (c_str endpoint) answers.bind }

/-- TcpServer::subscribe. -/
def subscribe (qt : Qt) (commandMap : QVariantMap) (answers : Answers) (p : Process) : Process :=
  let endpoint := endpointOf qt commandMap
  if p.server.subscribers.length > 0 &&
      derefEquals p.server.subscribers (find p.server.subscribers endpoint) endpoint answers.pastEnd then p
  else p.register endpoint answers

/-- TcpServer::start. -/
def start (qt : Qt) (commandMap : QVariantMap) (answers : Answers) (p : Process) : Process :=
  let endpoint := endpointOf qt commandMap
  let p := p.ensureHandler answers.memory
  { p with
    _stop := false
    server.m_thread := some p.workers.length
    workers := p.workers ++ [⟨.socket,p.server.pull_context,endpoint,p.server.m_handler,.null⟩] }

/-- The loop of stop over the socket vector. -/
def closeLoop : List VoidPtr → Zmq → Zmq
  | [],zmq => zmq
  | push_sock :: rest,zmq => closeLoop rest (zmq.zmq_close push_sock)

/-- TcpServer::stop. -/
def stop (p : Process) : Process :=
  { p with
    _stop := true
    zmq := closeLoop p.server.subscribers_sockets p.zmq
    server.subscribers_sockets := []
    server.subscribers := [] }

/-- The send loop of handle; the return code of a send is not looked at. -/
def sendLoop (data : List UInt8) (rc : Nat → Int) : Nat → List VoidPtr → Zmq → Zmq
  | _,[],zmq => zmq
  | i,sub_sock :: rest,zmq => sendLoop data rc (i + 1) rest (zmq.zmq_msg_send data sub_sock (rc i))

/-- ZmqOutHandler::handle. The size is asked for before the pointer is tested, so
    without the vector behind it the behaviour is undefined. -/
def handle (qt : Qt) (h : ZmqOutHandler) (df : data_frame) (duration : UInt64) (rc : Nat → Int) (p : Process) :
    Option Process :=
  (p.vector? h.subscribers_sockets).map fun subscribers_sockets =>
    match ZmqOutHandler.doHandle qt df duration with
    | none => p
    | some data => { p with zmq := sendLoop data rc 0 subscribers_sockets p.zmq }

end Process

inductive Command where
  | config (configMap : QVariantMap)
  | subscribe (commandMap : QVariantMap)
  | start (commandMap : QVariantMap)
  | stop

def execute (qt : Qt) (c : Command) (answers : Answers) (p : Process) : Option (Except Exn Unit × Process) :=
  match c with
  | .config configMap => p.config qt configMap answers
  | .subscribe commandMap => some (.ok (),p.subscribe qt commandMap answers)
  | .start commandMap => some (.ok (),p.start qt commandMap answers)
  | .stop => some (.ok (),p.stop)

/-- What do_start reads from a message, and the stream after it: the array over the
    message is as long as the return value of zmq_msg_recv says. -/
def decode (msg : List UInt8) : data_frame × QDataStream :=
  let rc := zmq_msg_recv msg
  let send_frame := msg.take rc
  data_frame.read ⟨send_frame,.Ok⟩

/-- One step of a worker: the next position and the process after it. -/
def do_start (qt : Qt) (w : Worker) (input : Input) (p : Process) : Option (Worker × Process) :=
  match w.pc with
  | .socket =>
    let (pull,zmq) := p.zmq.zmq_socket w.context .ZMQ_PULL input.socket
    some ({ w with pc := .connect,pull := pull },{ p with zmq := zmq })
  | .connect => some ({ w with pc := .options },{ p with zmq := p.zmq.zmq_connect w.pull (c_str w.endpoint) input.connect })
  | .options => some ({ w with pc := .test },p)
  | .test => some ({ w with pc := if p._stop then .closePull else .recv },p)
  | .recv =>
    match input.message with
    | none => some ({ w with pc := .test },p)
    | some msg => some ({ w with pc := .handle (decode msg).1 },p)
  | .handle df =>
    (p.handler? w.handler).bind fun h =>
      (p.handle qt h df input.duration input.rc).map fun p => ({ w with pc := .test },p)
  | .closePull => some ({ w with pc := .closeHandler },{ p with zmq := p.zmq.zmq_close w.pull })
  | .closeHandler => (p.handler? w.handler).map fun _ => ({ w with pc := .done },p)
  | _ => none

inductive Event where
  | command (c : Command) (answers : Answers)
  | worker (k : Nat) (input : Input)

/-- One step of the node. There is none where the behaviour is undefined. -/
def step (qt : Qt) (p : Process) : Event → Option Process
  | .command c answers => (execute qt c answers p).map Prod.snd
  | .worker k input =>
    p.workers[k]?.bind fun w =>
      (do_start qt w input p).map fun (w,p) => { p with workers := p.workers.set k w }

/-- Steps of worker 0 whose receives return this. -/
def polls (message : Option (List UInt8)) (steps : Nat) : List Event :=
  List.replicate steps (.worker 0 (.granted message))

end ZmqOut.Server
