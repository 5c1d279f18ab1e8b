import ZmqOut.Turns

/-!
A stop against the broadcasts under way. Nothing keeps the loop of stop and the
send loop of a worker apart; every send is on an open socket as long as none of
their operations meet in one of three ways.
-/
namespace ZmqOut.Races
open ZmqOut.Runs ZmqOut.DataStream ZmqOut.Variant ZmqOut.Sockets ZmqOut.Steps ZmqOut.Threads ZmqOut.Turns
open ZmqOut.Operations
open ZmqOut.Server hiding step

/-- A worker at this position sends on this socket next, if nothing interferes. -/
def Reaches (sockets : List VoidPtr) : WorkerPc → VoidPtr → Prop
  | .fetch _ i, sock => sockets[i]? = some sock
  | .send _ _ sub_sock, sock => sub_sock = sock
  | _, _ => False

/-- The turn does not make a broadcast go wrong: stop does not close the socket that a
    worker sends on next, stop does not clear the vector while a worker is between its
    test of the index and at, and no worker finds its index in range when the socket
    there is already closed. -/
def Allowed (s : State) : Turn → Prop
  | .command _ _ => True
  | .advance _ => match s.command with
    | .stopClose _ push_sock => push_sock ≠ .null →
      ∀ w ∈ s.process.workers, ¬ Reaches s.process.server.subscribers_sockets w.pc push_sock
    | .stopClear => ∀ w ∈ s.process.workers, ∀ data i, w.pc ≠ .fetch data i
    | _ => True
  | .worker k _ => ∀ w data i sock, s.process.workers[k]? = some w → w.pc = .loop data i →
    s.process.server.subscribers_sockets[i]? = some sock → ¬ s.process.zmq.Closed sock

/-- The pointer is in the vector or in a variable of one of the threads. -/
def Known (s : State) (sock : VoidPtr) : Prop :=
  sock ∈ s.process.server.subscribers_sockets ∨ Holds s.command sock ∨
    ∃ w ∈ s.process.workers, ∃ data i, w.pc = .send data i sock

/-- Subscribers have PUSH sockets and workers PULL sockets, so that a worker closes none
    of the former. -/
structure Pointers (s : State) : Prop where
  pushes : ∀ sock, Known s sock → sock ≠ .null → s.process.zmq.Created .ZMQ_PUSH sock
  pulls : ∀ w ∈ s.process.workers, w.pull ≠ .null → s.process.zmq.Created .ZMQ_PULL w.pull

/-- Every index that is about to be used is in range, and every socket that is about to
    be sent on is open. -/
structure Broadcasts (s : State) : Prop where
  inside : ∀ w ∈ s.process.workers, ∀ data i, w.pc = .fetch data i → i < s.process.server.subscribers_sockets.length
  opened : ∀ w ∈ s.process.workers, ∀ sock, Reaches s.process.server.subscribers_sockets w.pc sock →
    ¬ s.process.zmq.Closed sock

/-! ### Which sockets the threads know -/

theorem underway_of_reaches {sockets : List VoidPtr} {pc : WorkerPc} {sock : VoidPtr}
    (reaches : Reaches sockets pc sock) : Underway pc := by
  unfold Reaches at reaches
  split at reaches
  · trivial
  · trivial
  · exact reaches.elim

theorem reaches_cases {sockets : List VoidPtr} {pc : WorkerPc} {sock : VoidPtr} (reaches : Reaches sockets pc sock) :
    sock ∈ sockets ∨ ∃ data i, pc = .send data i sock := by
  unfold Reaches at reaches
  split at reaches
  · exact .inl (List.mem_of_getElem? reaches)
  · subst reaches
    exact .inr ⟨_,_,rfl⟩
  · exact reaches.elim

theorem known_of_reaches {s : State} {w : Worker} {sock : VoidPtr} (member : w ∈ s.process.workers)
    (reaches : Reaches s.process.server.subscribers_sockets w.pc sock) : Known s sock := by
  rcases reaches_cases reaches with listed | ⟨data,i,pc⟩
  · exact .inl listed
  · exact .inr (.inr ⟨w,member,data,i,pc⟩)

section
variable {turn : Turn} {s s' : State} {sock : VoidPtr}

/-- The vector grows by the pointer that subscribe holds. -/
theorem listed_before (effect : Effect s s' turn) (listed : sock ∈ s'.process.server.subscribers_sockets) :
    Known s sock := by
  cases effect with
  | quiet same _ _ | thread same _ _ _ _ | move _ same _ _ _ _ | pass _ _ same _ _ _ _ _ | fetch _ _ same _ _ _ _ _ =>
    exact .inl (same.sockets ▸ listed)
  | socket vector _ _ _ | close _ vector _ _ _ | openPull _ vector _ _ _ _ _ | closePull _ vector _ _ _ _ _ =>
    exact .inl (vector ▸ listed)
  | store command vector _ _ _ =>
    rw [vector] at listed
    rcases List.mem_append.mp listed with old | new
    · exact .inl old
    · rw [List.mem_singleton.mp new]
      exact .inr (.inl (by rw [command]; rfl))
  | clear _ vector _ _ _ =>
    rw [vector] at listed
    cases listed

/-- The command thread takes a pointer from zmq_socket or from the vector. -/
theorem holds_before (effect : Effect s s' turn) (holds : Holds s'.command sock) :
    Known s sock ∨ (sock ≠ .null → s'.process.zmq.Created .ZMQ_PUSH sock) := by
  cases effect with
  | quiet _ _ holds' => exact .inl (.inl (holds' sock holds))
  | thread _ _ _ _ command | store _ _ _ _ command | close _ _ _ _ command | clear _ _ _ _ command =>
    rw [command] at holds
    cases holds
  | socket _ zmq _ command =>
    rw [command] at holds
    cases holds
    rw [zmq]
    exact .inr Zmq.created_returned
  | move _ _ _ _ _ command | pass _ _ _ _ _ _ _ command | fetch _ _ _ _ _ _ _ command | openPull _ _ _ _ _ _ command
  | closePull _ _ _ _ _ _ command =>
    rw [command] at holds
    exact .inl (.inr (.inl holds))

/-- A worker takes a pointer from the vector. -/
theorem sending_before {w : Worker} {data : List UInt8} {i : Nat} (effect : Effect s s' turn)
    (member : w ∈ s'.process.workers) (pc : w.pc = .send data i sock) : Known s sock := by
  have kept : w ∈ s.process.workers → Known s sock := fun before => .inr (.inr ⟨w,before,data,i,pc⟩)
  cases effect with
  | quiet _ workers _ | socket _ _ workers _ | store _ _ _ workers _ | close _ _ _ workers _ | clear _ _ _ workers _ =>
    exact kept (workers ▸ member)
  | thread _ workers new _ _ =>
    rw [workers] at member
    rcases List.mem_append.mp member with old | last
    · exact kept old
    · rw [List.mem_singleton.mp last,new] at pc
      cases pc
  | move _ _ workers _ away _ =>
    rw [workers] at member
    rcases List.mem_or_eq_of_mem_set member with old | rfl
    · exact kept old
    · exact absurd (by rw [pc]; trivial) away
  | fetch _ _ _ found workers _ new _ =>
    rw [workers] at member
    rcases List.mem_or_eq_of_mem_set member with old | rfl
    · exact kept old
    · rw [new] at pc
      cases pc
      exact .inl (List.mem_of_getElem? found)
  | pass _ _ _ _ workers _ new _ | openPull _ _ _ workers new _ _ | closePull _ _ _ workers new _ _ =>
    rw [workers] at member
    rcases List.mem_or_eq_of_mem_set member with old | rfl
    · exact kept old
    · rw [new] at pc
      cases pc

/-- What a thread knows after a turn it knew before, or it is a new socket. -/
theorem known_before (effect : Effect s s' turn) (known : Known s' sock) :
    Known s sock ∨ (sock ≠ .null → s'.process.zmq.Created .ZMQ_PUSH sock) := by
  rcases known with listed | holds | ⟨w,member,data,i,pc⟩
  · exact .inl (listed_before effect listed)
  · exact holds_before effect holds
  · exact .inl (sending_before effect member pc)

end

theorem created_after {turn : Turn} {s s' : State} {type : SocketType} {sock : VoidPtr} (effect : Effect s s' turn)
    (created : s.process.zmq.Created type sock) : s'.process.zmq.Created type sock := by
  cases effect with
  | quiet same _ _ | thread same _ _ _ _ | move _ same _ _ _ _ | pass _ _ same _ _ _ _ _ | fetch _ _ same _ _ _ _ _ =>
    exact (Zmq.created_congr same.created).mpr created
  | socket _ zmq _ _ | openPull _ _ zmq _ _ _ _ =>
    rw [zmq]
    exact Zmq.created_kept created
  | store _ _ zmq _ _ | clear _ _ zmq _ _ =>
    rw [zmq]
    exact created
  | close _ _ zmq _ _ | closePull _ _ zmq _ _ _ _ =>
    rw [zmq]
    exact (Zmq.created_congr (Zmq.zmq_close_created ..)).mpr created

theorem step_pointers {turn : Turn} {s s' : State} (pointers : Pointers s) (effect : Effect s s' turn) : Pointers s' := by
  constructor
  · intro sock known nonnull
    rcases known_before effect known with before | new
    · exact created_after effect (pointers.pushes sock before nonnull)
    · exact new nonnull
  · intro v member nonnull
    have old : v ∈ s.process.workers → s'.process.zmq.Created .ZMQ_PULL v.pull := fun before =>
      created_after effect (pointers.pulls v before nonnull)
    have kept : ∀ {k : Nat} {w : Worker}, s.process.workers[k]? = some w → v.pull = w.pull →
        s'.process.zmq.Created .ZMQ_PULL v.pull := by
      intro k w there pull
      rw [pull] at nonnull ⊢
      exact created_after effect (pointers.pulls w (List.mem_of_getElem? there) nonnull)
    cases id effect with
    | quiet _ workers _ | socket _ _ workers _ | store _ _ _ workers _ | close _ _ _ workers _ | clear _ _ _ workers _ =>
      exact old (workers ▸ member)
    | thread _ workers _ pull _ =>
      rw [workers] at member
      rcases List.mem_append.mp member with before | last
      · exact old before
      · rw [List.mem_singleton.mp last] at nonnull
        exact absurd pull nonnull
    | move there _ workers pull _ _ | pass there _ _ _ workers pull _ _ | fetch there _ _ _ workers pull _ _
    | closePull there _ _ workers _ pull _ =>
      rw [workers] at member
      rcases List.mem_or_eq_of_mem_set member with before | rfl
      · exact old before
      · exact kept there pull
    | @openPull k input w w' _ _ zmq workers _ pull _ =>
      rw [workers] at member
      rcases List.mem_or_eq_of_mem_set member with before | rfl
      · exact old before
      · rw [pull] at nonnull ⊢
        rw [zmq]
        exact Zmq.created_returned nonnull

/-! ### Broadcasts on open sockets -/

/-- What a worker at this position needs. -/
def Ready (s : State) (pc : WorkerPc) : Prop :=
  (∀ data i, pc = .fetch data i → i < s.process.server.subscribers_sockets.length) ∧
    ∀ sock, Reaches s.process.server.subscribers_sockets pc sock → ¬ s.process.zmq.Closed sock

theorem ready_of_away {s : State} {pc : WorkerPc} (away : ¬ Underway pc) : Ready s pc := by
  constructor
  · rintro data i rfl
    exact absurd trivial away
  · intro sock reaches
    exact absurd (underway_of_reaches reaches) away

theorem Broadcasts.ready {s : State} (broadcasts : Broadcasts s) {w : Worker} (member : w ∈ s.process.workers) :
    Ready s w.pc :=
  ⟨broadcasts.inside w member,broadcasts.opened w member⟩

theorem broadcasts_of_ready {s : State} (ready : ∀ w ∈ s.process.workers, Ready s w.pc) : Broadcasts s :=
  ⟨fun w member => (ready w member).1,fun w member => (ready w member).2⟩

section
variable {s s' : State} {pc : WorkerPc}

theorem ready_frame (ready : Ready s pc)
    (vector : s'.process.server.subscribers_sockets = s.process.server.subscribers_sockets)
    (closes : s'.process.zmq.closes = s.process.zmq.closes) : Ready s' pc := by
  simp only [Ready,Zmq.Closed,vector,closes]
  exact ready

/-- A socket behind the others changes no index that is in range. -/
theorem ready_store {push : VoidPtr} (ready : Ready s pc)
    (vector : s'.process.server.subscribers_sockets = s.process.server.subscribers_sockets ++ [push])
    (closes : s'.process.zmq.closes = s.process.zmq.closes) : Ready s' pc := by
  obtain ⟨inside,opened⟩ := ready
  constructor
  · intro data i fetches
    rw [vector,List.length_append]
    exact Nat.lt_add_right _ (inside data i fetches)
  · intro sock reaches
    rw [vector] at reaches
    rw [Zmq.Closed,closes]
    refine opened sock ?_
    cases pc with
    | fetch data i =>
      rw [Reaches,List.getElem?_append_left (inside data i rfl)] at reaches
      exact reaches
    | _ => exact reaches

/-- A worker that is not between its test and at does not look at the vector next. -/
theorem ready_clear (ready : Ready s pc) (elsewhere : ∀ data i, pc ≠ .fetch data i)
    (closes : s'.process.zmq.closes = s.process.zmq.closes) : Ready s' pc := by
  constructor
  · intro data i fetches
    exact absurd fetches (elsewhere data i)
  · intro sock reaches
    rw [Zmq.Closed,closes]
    refine ready.2 sock ?_
    cases pc with
    | fetch data i => exact absurd rfl (elsewhere data i)
    | _ => exact reaches

/-- Closing a socket matters for those that send on it next. -/
theorem ready_close {closed : VoidPtr} (ready : Ready s pc)
    (vector : s'.process.server.subscribers_sockets = s.process.server.subscribers_sockets)
    (zmq : s'.process.zmq = s.process.zmq.zmq_close closed)
    (apart : closed ≠ .null → ¬ Reaches s.process.server.subscribers_sockets pc closed) : Ready s' pc := by
  simp only [Ready,vector,zmq]
  refine ⟨ready.1,?_⟩
  intro sock reaches
  rw [Zmq.closed_close]
  rintro (before | ⟨rfl,nonnull⟩)
  · exact ready.2 sock reaches before
  · exact apart nonnull reaches

end

/-- A turn that leaves the vector and the closed sockets alone matters by the workers that
    it makes or moves. -/
theorem broadcasts_frame {s s' : State} (broadcasts : Broadcasts s)
    (vector : s'.process.server.subscribers_sockets = s.process.server.subscribers_sockets)
    (closes : s'.process.zmq.closes = s.process.zmq.closes)
    (workers : ∀ v ∈ s'.process.workers, v ∈ s.process.workers ∨ Ready s v.pc) : Broadcasts s' := by
  refine broadcasts_of_ready ?_
  intro v member
  rcases workers v member with before | ready
  · exact ready_frame (broadcasts.ready before) vector closes
  · exact ready_frame ready vector closes

/-- One worker moves to a position that has what it needs. -/
theorem broadcasts_set {s s' : State} {k : Nat} {w' : Worker} (broadcasts : Broadcasts s)
    (vector : s'.process.server.subscribers_sockets = s.process.server.subscribers_sockets)
    (closes : s'.process.zmq.closes = s.process.zmq.closes)
    (workers : s'.process.workers = s.process.workers.set k w') (ready : Ready s w'.pc) : Broadcasts s' := by
  refine broadcasts_frame broadcasts vector closes ?_
  intro v member
  rw [workers] at member
  rcases List.mem_or_eq_of_mem_set member with before | rfl
  · exact .inl before
  · exact .inr ready

theorem step_broadcasts {turn : Turn} {s s' : State} (pointers : Pointers s) (broadcasts : Broadcasts s)
    (allowed : Allowed s turn) (effect : Effect s s' turn) : Broadcasts s' := by
  cases effect with
  | quiet same workers _ =>
    refine broadcasts_frame broadcasts same.sockets same.closes ?_
    intro v member
    exact .inl (workers ▸ member)
  | thread same workers pc _ _ =>
    refine broadcasts_frame broadcasts same.sockets same.closes ?_
    intro v member
    rw [workers] at member
    rcases List.mem_append.mp member with before | last
    · exact .inl before
    · rw [List.mem_singleton.mp last,pc]
      exact .inr (ready_of_away id)
  | socket vector zmq workers _ =>
    refine broadcasts_frame broadcasts (by rw [vector]) (by rw [zmq,Zmq.zmq_socket_closes]) ?_
    intro v member
    exact .inl (workers ▸ member)
  | store _ vector zmq workers _ =>
    refine broadcasts_of_ready ?_
    intro v member
    rw [workers] at member
    exact ready_store (broadcasts.ready member) vector (by rw [zmq])
  | close command vector zmq workers _ =>
    rw [Allowed,command] at allowed
    refine broadcasts_of_ready ?_
    intro v member
    rw [workers] at member
    exact ready_close (broadcasts.ready member) (by rw [vector]) zmq fun nonnull => allowed nonnull v member
  | clear command _ zmq workers _ =>
    rw [Allowed,command] at allowed
    refine broadcasts_of_ready ?_
    intro v member
    rw [workers] at member
    exact ready_clear (broadcasts.ready member) (allowed v member) (by rw [zmq])
  | move _ same workers _ away _ =>
    exact broadcasts_set broadcasts same.sockets same.closes workers (ready_of_away away)
  | @pass k input w w' data i there pc same inside workers _ pc' _ =>
    refine broadcasts_set broadcasts same.sockets same.closes workers ?_
    rw [pc']
    refine ⟨?_,?_⟩
    · intro data' j fetches
      cases fetches
      exact inside
    · intro sock reaches
      exact allowed w data i sock there pc reaches
  | @fetch k input w w' data i sub_sock there pc same found workers _ pc' _ =>
    refine broadcasts_set broadcasts same.sockets same.closes workers ?_
    rw [pc']
    refine ⟨nofun,?_⟩
    rintro sock rfl
    exact broadcasts.opened w (List.mem_of_getElem? there) sub_sock (by rw [pc]; exact found)
  | openPull _ vector zmq workers pc' _ _ =>
    refine broadcasts_set broadcasts (by rw [vector]) (by rw [zmq,Zmq.zmq_socket_closes]) workers ?_
    exact ready_of_away (by rw [pc']; exact id)
  | @closePull k input w w' there vector zmq workers pc' _ _ =>
    refine broadcasts_of_ready ?_
    intro v member
    rw [workers] at member
    rcases List.mem_or_eq_of_mem_set member with before | rfl
    · refine ready_close (broadcasts.ready before) (by rw [vector]) zmq ?_
      intro nonnull reaches
      -- A PULL socket is none that a broadcast reaches.
      have pull := pointers.pulls w (List.mem_of_getElem? there) nonnull
      have push := pointers.pushes w.pull (known_of_reaches before reaches) nonnull
      cases Zmq.created_type pull push
    · exact ready_of_away (by rw [pc']; exact id)

theorem construct_pointers (m_handler : Nat) (addr : { a : Nat // 0 < a }) :
    Pointers (whole (construct m_handler addr)) ∧ Broadcasts (whole (construct m_handler addr)) := by
  refine ⟨⟨?_,nofun⟩,⟨nofun,nofun⟩⟩
  rintro sock (listed | holds | ⟨w,member,-⟩) -
  · cases listed
  · cases holds
  · cases member

/-- In a run whose turns are all allowed the index is in range whenever a worker executes
    at, and the socket is open whenever a worker executes zmq_msg_send. -/
theorem broadcast_safe (qt : Qt) (m_handler : Nat) (addr : { a : Nat // 0 < a }) (turns : List Turn) (s : State)
    (allowed : Meets (step qt) Allowed (whole (construct m_handler addr)) turns)
    (executed : run (step qt) (whole (construct m_handler addr)) turns = some s) (k : Nat) (w : Worker)
    (there : s.process.workers[k]? = some w) :
    (∀ data i, w.pc = .fetch data i → i < s.process.server.subscribers_sockets.length) ∧
      ∀ data i sub_sock, w.pc = .send data i sub_sock → ¬ s.process.zmq.Closed sub_sock := by
  have advance : ∀ s turn s', Pointers s ∧ Broadcasts s → Allowed s turn → step qt s turn = some s' →
      Pointers s' ∧ Broadcasts s' := by
    rintro s turn s' ⟨pointers,broadcasts⟩ permitted taken
    have effect := step_effect taken
    exact ⟨step_pointers pointers effect,step_broadcasts pointers broadcasts permitted effect⟩
  obtain ⟨-,broadcasts⟩ := run_invariant advance (construct_pointers m_handler addr) allowed executed
  have member := List.mem_of_getElem? there
  refine ⟨broadcasts.inside w member,?_⟩
  intro data i sub_sock pc
  exact broadcasts.opened w member sub_sock (by rw [pc]; rfl)

/-! ### Turns that are not allowed -/

/-- Worker `k` executes at with an index out of range or sends on a closed socket. -/
def Fails (s : State) (k : Nat) : Prop :=
  ∃ w, s.process.workers[k]? = some w ∧
    ((∃ data i, w.pc = .fetch data i ∧ ¬ i < s.process.server.subscribers_sockets.length) ∨
      ∃ data i sub_sock, w.pc = .send data i sub_sock ∧ s.process.zmq.Closed sub_sock)

/-- A worker whose next send is on a closed socket fails by its own operations. -/
theorem fails_of_reaches {qt : Qt} {s : State} {k : Nat} {w : Worker} {sock : VoidPtr} {sockets : List VoidPtr}
    (there : s.process.workers[k]? = some w) (vector : vectorOf w s.process = some sockets)
    (reaches : Reaches s.process.server.subscribers_sockets w.pc sock) (closed : s.process.zmq.Closed sock)
    (input : Input) : ∃ n s', run (step qt) s (List.replicate n (.worker k input)) = some s' ∧ Fails s' k := by
  have inside := (List.getElem?_eq_some_iff.mp there).1
  cases pc : w.pc with
  | fetch data i =>
    rw [pc] at reaches
    have server := vectorOf_some vector
    subst server
    have fetched : step qt s (.worker k input) =
        some ⟨setWorker k { w with pc := .send data i sock } s.process,s.command⟩ := by
      have found : s.process.server.subscribers_sockets[i]? = some sock := reaches
      simp only [step,there,Option.bind_some,work,pc,vector,found,Option.map_some]
    refine ⟨1,_,by rw [List.replicate_one,run_taken fetched,run_nil],{ w with pc := .send data i sock },?_,?_⟩
    · simp [setWorker,inside]
    · exact .inr ⟨data,i,sock,rfl,closed⟩
  | send data i sub_sock =>
    rw [pc] at reaches
    cases reaches
    exact ⟨0,s,rfl,w,there,.inr ⟨data,i,sock,pc,closed⟩⟩
  | _ =>
    rw [pc] at reaches
    exact reaches.elim

/-- After a turn that is not allowed some worker fails by its own operations alone. -/
theorem excluded_fails {qt : Qt} {s s' : State} {turn : Turn} (input : Input)
    (valid : ∀ w ∈ s.process.workers, ∃ sockets, vectorOf w s.process = some sockets) (excluded : ¬ Allowed s turn)
    (taken : step qt s turn = some s') :
    ∃ k n s'', run (step qt) s' (List.replicate n (.worker k input)) = some s'' ∧ Fails s'' k := by
  cases turn with
  | command c answers => exact absurd trivial excluded
  | advance answers =>
    rw [step] at taken
    cases command : s.command with
    | stopClose i push_sock =>
      rw [Allowed,command] at excluded
      rw [command] at taken
      cases taken
      simp only [not_forall,not_not] at excluded
      obtain ⟨nonnull,w,member,reaches⟩ := excluded
      obtain ⟨k,there⟩ := List.mem_iff_getElem?.mp member
      obtain ⟨sockets,vector⟩ := valid w member
      have closed : (s.process.zmq.zmq_close push_sock).Closed push_sock := Zmq.closed_close.mpr (.inr ⟨rfl,nonnull⟩)
      exact ⟨k,@fails_of_reaches qt ⟨{ s.process with zmq := s.process.zmq.zmq_close push_sock },.stopTest (i + 1)⟩
        k w push_sock sockets there vector reaches closed input⟩
    | stopClear =>
      rw [Allowed,command] at excluded
      rw [command] at taken
      cases taken
      simp only [not_forall,not_not] at excluded
      obtain ⟨w,member,data,i,pc⟩ := excluded
      obtain ⟨k,there⟩ := List.mem_iff_getElem?.mp member
      exact ⟨k,0,_,rfl,w,there,.inl ⟨data,i,pc,Nat.not_lt_zero i⟩⟩
    | _ =>
      rw [Allowed,command] at excluded
      exact absurd trivial excluded
  | worker k _ =>
    simp only [Allowed,not_forall,not_not] at excluded
    obtain ⟨w,data,i,sock,there,pc,found,closed⟩ := excluded
    obtain ⟨sockets,vector⟩ := valid w (List.mem_of_getElem? there)
    have server := vectorOf_some vector
    subst server
    have bounds := (List.getElem?_eq_some_iff.mp there).1
    have inside := (List.getElem?_eq_some_iff.mp found).1
    simp only [step,there,Option.bind_some,work,pc,vector,inside,↓reduceIte,Option.map_some,Option.some.injEq] at taken
    subst taken
    exact ⟨k,@fails_of_reaches qt ⟨setWorker k { w with pc := .fetch data i } s.process,s.command⟩ k
      { w with pc := .fetch data i } sock _ (by simp [setWorker,bounds]) vector found closed input⟩

/-- A subscriber, a worker, and the operations of the worker up to its first at. -/
def untilFetch : List Turn :=
  .command (.subscribe [(key "endpoint",.string (key "tcp://*:1"))]) .granted :: List.replicate 4 (.advance .granted) ++
    .command (.start []) .granted :: List.replicate 2 (.advance .granted) ++
    List.replicate 8 (.worker 0 (.granted (some (data_frame.write ⟨none,none⟩))))

/-- A worker that is not in its send loop makes no turn that is not allowed. -/
theorem allowed_elsewhere {s : State} {k : Nat} {input : Input} {w : Worker} (there : s.process.workers[k]? = some w)
    (elsewhere : ∀ data i, w.pc ≠ .loop data i) : Allowed s (.worker k input) := by
  intro v data i sock there' pc
  rw [there] at there'
  cases there'
  exact absurd pc (elsewhere data i)

/-- A stop runs to its end while the worker waits for a message, and after another subscribe the worker
    broadcasts up to its first zmq_msg_send. -/
def aroundStop : List Turn :=
  .command (.subscribe [(key "endpoint",.string (key "tcp://*:1"))]) .granted :: List.replicate 4 (.advance .granted) ++
    .command (.start []) .granted :: List.replicate 2 (.advance .granted) ++
    List.replicate 4 (.worker 0 (.granted none)) ++
    .command .stop .granted :: List.replicate 6 (.advance .granted) ++
    .command (.subscribe [(key "endpoint",.string (key "tcp://*:1"))]) .granted :: List.replicate 4 (.advance .granted) ++
    List.replicate 5 (.worker 0 (.granted (some (data_frame.write ⟨none,none⟩))))

theorem broadcast_safe_around_stop : ∃ s data,
    run (step (.table [])) (whole (construct 0 ⟨1,Nat.one_pos⟩)) aroundStop = some s ∧
    s.process.workers.map Worker.pc = [.send data 0 (.socket 2)] ∧ s.process.zmq.closes = [.socket 0] ∧
    ¬ s.process.zmq.Closed (.socket 2) := by
  refine ⟨_,_,rfl,rfl,rfl,?_⟩
  refine (broadcast_safe (.table []) 0 ⟨1,Nat.one_pos⟩ aroundStop _ ?_ rfl 0 _ rfl).2 _ 0 _ rfl
  iterate 8 refine meets_cons trivial rfl ?_
  iterate 4 refine meets_cons (allowed_elsewhere rfl nofun) rfl ?_
  iterate 3 refine meets_cons trivial rfl ?_
  -- The worker is in zmq_msg_recv when stop closes the socket and when it clears the vector.
  refine meets_cons ?_ rfl ?_
  · intro _ w member reaches
    cases List.mem_singleton.mp member
    exact reaches
  refine meets_cons trivial rfl ?_
  refine meets_cons ?_ rfl ?_
  · intro w member data i
    cases List.mem_singleton.mp member
    exact nofun
  iterate 6 refine meets_cons trivial rfl ?_
  iterate 3 refine meets_cons (allowed_elsewhere rfl nofun) rfl ?_
  refine meets_cons ?_ rfl ?_
  · rintro w data i sock there pc found ⟨-,closed⟩
    cases there
    cases pc
    cases found
    cases List.mem_singleton.mp closed
  exact meets_cons (allowed_elsewhere rfl nofun) rfl trivial

/-- A stop that overtakes the worker clears the vector before at, or closes the socket
    before zmq_msg_send. -/
theorem stop_overtakes :
    (∃ s, run (step (.table [])) (whole (construct 0 ⟨1,Nat.one_pos⟩))
      (untilFetch ++ .command .stop .granted :: List.replicate 5 (.advance .granted)) = some s ∧ Fails s 0) ∧
    ∃ s, run (step (.table [])) (whole (construct 0 ⟨1,Nat.one_pos⟩))
      (untilFetch ++ .worker 0 (.granted none) :: .command .stop .granted :: List.replicate 3 (.advance .granted)) =
        some s ∧ Fails s 0 := by
  refine ⟨⟨_,rfl,_,rfl,.inl ⟨_,0,rfl,by decide⟩⟩,⟨_,rfl,_,rfl,.inr ⟨_,0,.socket 0,rfl,by simp,?_⟩⟩⟩
  decide

end ZmqOut.Races
