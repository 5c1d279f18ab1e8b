import ZmqOut.Variant

/-!
ZeroMQ as the program sees it: untyped pointers, and the calls made so far with
the answers they got. Whether a call succeeds is up to its caller's
environment, which passes the answer in. A new socket never has the pointer of an
earlier one.
-/
namespace ZmqOut.Sockets
open ZmqOut.Variant

/-- What a void pointer returned by ZeroMQ denotes. -/
inductive VoidPtr where
  | null
  | context (k : Nat)
  | socket (k : Nat)
deriving DecidableEq, Repr

inductive SocketType where
  | ZMQ_PUSH
  | ZMQ_PULL
deriving DecidableEq, Repr

structure Socket where
  type : SocketType
  context : VoidPtr
deriving DecidableEq, Repr

/-- One zmq_bind or zmq_connect and whether it succeeded. -/
structure Attachment where
  socket : VoidPtr
  endpoint : StdString
  succeeded : Bool
deriving DecidableEq, Repr

/-- One zmq_msg_send with its return code. -/
structure Send where
  socket : VoidPtr
  data : List UInt8
  rc : Int
deriving DecidableEq, Repr

/-- The calls so far, each kind oldest first; socket `k` is entry `k` of `created`. -/
structure Zmq where
  contexts : Nat
  created : List Socket
  binds : List Attachment
  connects : List Attachment
  sends : List Send
  closes : List VoidPtr
deriving DecidableEq, Repr

/-- The bytes a const char pointer into a std::string denotes. -/
def c_str (s : StdString) : StdString := s.takeWhile (· ≠ 0)

def INT_MAX : Nat := 2 ^ 31 - 1

/-- What zmq_msg_recv returns for a message: its size, or the largest int there is. -/
def zmq_msg_recv (msg : List UInt8) : Nat := min msg.length INT_MAX

namespace Zmq

def zmq_init (z : Zmq) : VoidPtr × Zmq := (.context z.contexts,{ z with contexts := z.contexts + 1 })

/-- The null pointer is returned when no socket can be created. -/
def zmq_socket (context : VoidPtr) (type : SocketType) (answer : Bool) (z : Zmq) : VoidPtr × Zmq :=
  if answer then (.socket z.created.length,{ z with created := z.created ++ [⟨type,context⟩] }) else (.null,z)

/-- Nothing is bound through the null pointer. -/
def zmq_bind (socket : VoidPtr) (endpoint : StdString) (answer : Bool) (z : Zmq) : Zmq :=
  { z with binds := z.binds ++ [⟨socket,endpoint,answer && socket ≠ .null⟩] }

def zmq_connect (socket : VoidPtr) (endpoint : StdString) (answer : Bool) (z : Zmq) : Zmq :=
  { z with connects := z.connects ++ [⟨socket,endpoint,answer && socket ≠ .null⟩] }

def zmq_msg_send (data : List UInt8) (socket : VoidPtr) (rc : Int) (z : Zmq) : Zmq :=
  { z with sends := z.sends ++ [⟨socket,data,rc⟩] }

def zmq_close (socket : VoidPtr) (z : Zmq) : Zmq := { z with closes := z.closes ++ [socket] }

/-- The messages passed to zmq_msg_send on a socket, oldest first. -/
def sentOn (z : Zmq) (socket : VoidPtr) : List (List UInt8) :=
  (z.sends.filter fun send => send.socket = socket).map Send.data

/-- The pointer denotes a socket of this type that zmq_socket returned. -/
def Created (z : Zmq) (type : SocketType) (socket : VoidPtr) : Prop :=
  ∃ k entry, socket = .socket k ∧ z.created[k]? = some entry ∧ entry.type = type

/-- The socket was passed to zmq_close. -/
def Closed (z : Zmq) (socket : VoidPtr) : Prop := socket ≠ .null ∧ socket ∈ z.closes

/-- A zmq_bind of this socket to this endpoint succeeded. -/
def Bound (z : Zmq) (socket : VoidPtr) (endpoint : StdString) : Prop :=
  ⟨socket,c_str endpoint,true⟩ ∈ z.binds

/-! ### What the calls leave alone -/

section
variable (z : Zmq) (context socket : VoidPtr) (type : SocketType) (endpoint : StdString) (data : List UInt8)
  (answer : Bool) (rc : Int)

@[simp] theorem zmq_socket_closes : (z.zmq_socket context type answer).2.closes = z.closes := by
  cases answer <;> rfl
@[simp] theorem zmq_socket_sends : (z.zmq_socket context type answer).2.sends = z.sends := by
  cases answer <;> rfl
@[simp] theorem zmq_socket_binds : (z.zmq_socket context type answer).2.binds = z.binds := by
  cases answer <;> rfl
@[simp] theorem zmq_bind_created : (z.zmq_bind socket endpoint answer).created = z.created := rfl
@[simp] theorem zmq_bind_closes : (z.zmq_bind socket endpoint answer).closes = z.closes := rfl
@[simp] theorem zmq_bind_sends : (z.zmq_bind socket endpoint answer).sends = z.sends := rfl
@[simp] theorem zmq_close_created : (z.zmq_close socket).created = z.created := rfl
@[simp] theorem zmq_close_closes : (z.zmq_close socket).closes = z.closes ++ [socket] := rfl
@[simp] theorem zmq_close_sends : (z.zmq_close socket).sends = z.sends := rfl

theorem zmq_socket_created :
    (z.zmq_socket context type answer).2.created = z.created ++ if answer then [⟨type,context⟩] else [] := by
  cases answer <;> simp [zmq_socket]

end

/-! ### Which sockets there are -/

theorem created_lt {z : Zmq} {type : SocketType} {k : Nat} (created : z.Created type (.socket k)) :
    k < z.created.length := by
  obtain ⟨j,entry,same,at_j,-⟩ := created
  cases same
  exact (List.getElem?_eq_some_iff.mp at_j).1

theorem created_type {z : Zmq} {type type' : SocketType} {socket : VoidPtr} (created : z.Created type socket)
    (created' : z.Created type' socket) : type = type' := by
  obtain ⟨k,entry,rfl,at_k,rfl⟩ := created
  obtain ⟨j,entry',same,at_j,rfl⟩ := created'
  cases same
  rw [at_k] at at_j
  cases at_j
  rfl

/-- zmq_socket adds its result to the sockets of its type. -/
theorem created_socket {z : Zmq} {type type' : SocketType} {context socket : VoidPtr} {answer : Bool} :
    (z.zmq_socket context type answer).2.Created type' socket ↔
      z.Created type' socket ∨ answer = true ∧ type = type' ∧ socket = .socket z.created.length := by
  cases answer with
  | false => simp [zmq_socket]
  | true =>
    simp only [Created,zmq_socket,↓reduceIte,true_and]
    constructor
    · rintro ⟨k,entry,rfl,at_k,rfl⟩
      rcases Nat.lt_trichotomy k z.created.length with old | new | beyond
      · rw [List.getElem?_append_left old] at at_k
        exact .inl ⟨k,entry,rfl,at_k,rfl⟩
      · subst new
        simp at at_k
        subst at_k
        exact .inr ⟨rfl,rfl⟩
      · rw [List.getElem?_append_right (Nat.le_of_lt beyond)] at at_k
        have inside := (List.getElem?_eq_some_iff.mp at_k).1
        rw [List.length_singleton] at inside
        omega
    · rintro (⟨k,entry,rfl,at_k,rfl⟩ | ⟨rfl,rfl⟩)
      · have old := (List.getElem?_eq_some_iff.mp at_k).1
        exact ⟨k,entry,rfl,by rw [List.getElem?_append_left old]; exact at_k,rfl⟩
      · exact ⟨z.created.length,⟨type,context⟩,rfl,by simp,rfl⟩

/-- The sockets there are stay when another one is asked for. -/
theorem created_kept {z : Zmq} {type type' : SocketType} {context socket : VoidPtr} {answer : Bool}
    (created : z.Created type' socket) : (z.zmq_socket context type answer).2.Created type' socket :=
  created_socket.mpr (.inl created)

/-- A pointer that zmq_socket returns, unless it is null, is a socket of the type asked for. -/
theorem created_returned {z : Zmq} {type : SocketType} {context : VoidPtr} {answer : Bool}
    (nonnull : (z.zmq_socket context type answer).1 ≠ .null) :
    (z.zmq_socket context type answer).2.Created type (z.zmq_socket context type answer).1 := by
  cases answer with
  | true => exact created_socket.mpr (.inr ⟨rfl,rfl,rfl⟩)
  | false => exact absurd rfl nonnull

theorem closed_close {z : Zmq} {sock closed : VoidPtr} :
    (z.zmq_close closed).Closed sock ↔ z.Closed sock ∨ sock = closed ∧ closed ≠ .null := by
  simp only [Closed,zmq_close_closes,List.mem_append,List.mem_singleton]
  constructor
  · rintro ⟨nonnull,old | rfl⟩
    · exact .inl ⟨nonnull,old⟩
    · exact .inr ⟨rfl,nonnull⟩
  · rintro (⟨nonnull,old⟩ | ⟨rfl,nonnull⟩)
    · exact ⟨nonnull,.inl old⟩
    · exact ⟨nonnull,.inr rfl⟩

theorem created_congr {z z' : Zmq} (same : z'.created = z.created) {type : SocketType} {socket : VoidPtr} :
    z'.Created type socket ↔ z.Created type socket := by
  simp only [Created,same]

end Zmq
end ZmqOut.Sockets
