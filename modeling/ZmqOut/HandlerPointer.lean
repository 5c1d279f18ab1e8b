import ZmqOut.Runs
import ZmqOut.Steps

/-!
The pointer m_handler. The handler is made by whichever of config and start finds
the pointer null, which takes the null pointer for the absence of a handler; the
constructor does not establish it.
-/
namespace ZmqOut.HandlerPointer
open ZmqOut.Runs ZmqOut.DataStream ZmqOut.Variant ZmqOut.Sockets ZmqOut.Server ZmqOut.Steps

/-- The pointer denotes a handler that has the address of the server's vector. -/
def Valid (p : Process) (a : Nat) : Prop :=
  ∃ h, p.handler? a = some h ∧ h.subscribers_sockets = p.server.socketsAddr

/-- The pointer through which the event calls parseConfig, handle or close, or which
    it hands to a worker, is valid. -/
def Sound (p : Process) : Event → Prop
  | .command (.config _) answers | .command (.start _) answers =>
    Valid (p.ensureHandler answers.memory) (p.ensureHandler answers.memory).server.m_handler
  | .command _ _ => True
  | .worker k _ => ∀ w, p.workers[k]? = some w → (∃ df, w.pc = .handle df) ∨ w.pc = .closeHandler → Valid p w.handler

/-- Every handler was made for the server's vector, and m_handler, unless it is null,
    and the pointers of the workers are addresses of handlers. -/
structure Handlers (p : Process) : Prop where
  made : ∀ h ∈ p.heap, h.subscribers_sockets = p.server.socketsAddr
  current : p.server.m_handler ≤ p.heap.length
  workers : ∀ w ∈ p.workers, 0 < w.handler ∧ w.handler ≤ p.heap.length

theorem construct_handlers (addr : { a : Nat // 0 < a }) : Handlers (construct 0 addr) :=
  ⟨nofun,Nat.le_refl 0,nofun⟩

theorem Handlers.valid {p : Process} (handlers : Handlers p) {a : Nat} (positive : 0 < a) (inside : a ≤ p.heap.length) :
    Valid p a := by
  obtain ⟨k,rfl⟩ := Nat.exists_eq_succ_of_ne_zero (Nat.ne_of_gt positive)
  refine ⟨p.heap[k],List.getElem?_eq_getElem inside,?_⟩
  exact handlers.made _ (List.getElem_mem inside)

/-- The test for null leaves a handler behind the pointer. -/
theorem ensureHandler_handlers {p : Process} (memory : Nat) (handlers : Handlers p) :
    Handlers (p.ensureHandler memory) ∧ 0 < (p.ensureHandler memory).server.m_handler := by
  by_cases null : p.server.m_handler = 0
  · obtain ⟨pointer,heap⟩ := ensureHandler_null p memory null
    refine ⟨⟨?_,?_,?_⟩,?_⟩
    · intro h member
      rw [heap] at member
      rw [ensureHandler_addr]
      rcases List.mem_append.mp member with old | new
      · exact handlers.made h old
      · rw [List.mem_singleton.mp new]
    · rw [pointer,heap,List.length_append,List.length_singleton]
    · intro w member
      rw [ensureHandler_workers] at member
      obtain ⟨positive,inside⟩ := handlers.workers w member
      rw [heap,List.length_append]
      exact ⟨positive,Nat.le_add_right_of_le inside⟩
    · rw [pointer]
      omega
  · rw [ensureHandler_set p memory null]
    exact ⟨handlers,Nat.pos_of_ne_zero null⟩

theorem handlers_frame {p p' : Process} (handlers : Handlers p) (heap : p'.heap = p.heap)
    (pointer : p'.server.m_handler = p.server.m_handler) (addr : p'.server.socketsAddr = p.server.socketsAddr)
    (workers : p'.workers.map Worker.handler = p.workers.map Worker.handler) : Handlers p' := by
  refine ⟨?_,?_,?_⟩
  · rw [heap,addr]; exact handlers.made
  · rw [heap,pointer]; exact handlers.current
  · intro w member
    obtain ⟨v,there,same⟩ := worker_before workers member
    rw [heap,← same]
    exact handlers.workers v there

theorem step_handlers {qt : Qt} {p p' : Process} {event : Event} (handlers : Handlers p)
    (taken : step qt p event = some p') : Handlers p' := by
  cases step_cases taken with
  | config _ => exact (ensureHandler_handlers _ handlers).1
  | duplicate _ _ => exact handlers
  | register _ _ =>
    rw [register_eq]
    exact handlers_frame handlers rfl rfl rfl rfl
  | @start m answers =>
    obtain ⟨ensured,positive⟩ := ensureHandler_handlers answers.memory handlers
    refine ⟨ensured.made,ensured.current,?_⟩
    intro w member
    rw [start_workers] at member
    rcases List.mem_append.mp member with old | new
    · exact ensured.workers w (by rw [ensureHandler_workers]; exact old)
    · rw [List.mem_singleton.mp new]
      exact ⟨positive,ensured.current⟩
  | stop => exact handlers_frame handlers rfl rfl rfl rfl
  | openPull there _ | connect there _ | options there _ | test there _ | timeout there _ | receive there _
  | handle there _ _ _ | closePull there _ | closeHandler there _ _ =>
    exact handlers_frame handlers rfl rfl rfl (map_set_same there rfl)

theorem Handlers.sound {p : Process} (handlers : Handlers p) (event : Event) : Sound p event := by
  cases event with
  | command c answers =>
    cases c with
    | config m | start m =>
      obtain ⟨ensured,positive⟩ := ensureHandler_handlers answers.memory handlers
      exact ensured.valid positive ensured.current
    | subscribe m | stop => trivial
  | worker k input =>
    intro w there _
    obtain ⟨positive,inside⟩ := handlers.workers w (List.mem_of_getElem? there)
    exact handlers.valid positive inside

theorem run_handlers {qt : Qt} {p p' : Process} {events : List Event} (handlers : Handlers p)
    (executed : run (step qt) p events = some p') : Handlers p' :=
  run_preserved (fun _ _ _ handlers taken => step_handlers handlers taken) handlers executed

/-- Every use of the pointer in every run is sound exactly when the memory of the
    field m_handler is null before the constructor runs. -/
theorem pointers_sound_iff (qt : Qt) (m_handler : Nat) (addr : { a : Nat // 0 < a }) :
    (∀ events p event, run (step qt) (construct m_handler addr) events = some p → Sound p event) ↔ m_handler = 0 := by
  constructor
  · intro sound
    by_contra set
    obtain ⟨h,found,-⟩ := sound [] _ (.command (.config []) .granted) rfl
    have empty : (construct m_handler addr).handler? m_handler = none := by
      cases m_handler with
      | zero => exact absurd rfl set
      | succ k => rfl
    rw [ensureHandler_set _ _ set] at found
    cases empty.symm.trans found
  · rintro rfl events p event executed
    exact (run_handlers (construct_handlers addr) executed).sound event

/-- A field with other content is taken for a handler by the first config. -/
theorem wild_handler_used : ¬ Sound (construct 1 ⟨1,Nat.one_pos⟩) (.command (.config []) .granted) := by
  rintro ⟨h,found,-⟩
  cases found

/-! ### Commands whose behaviour is defined -/

theorem config_defined (qt : Qt) (m : QVariantMap) (answers : Answers) {p : Process} (handlers : Handlers p) :
    p.config qt m answers = some (.ok (),p.ensureHandler answers.memory) := by
  obtain ⟨ensured,positive⟩ := ensureHandler_handlers answers.memory handlers
  obtain ⟨h,found,-⟩ := ensured.valid positive ensured.current
  exact config_some.mpr ⟨rfl,rfl,h,found⟩

/-- Where the pointers are valid, every command returns without an exception. -/
theorem execute_defined (qt : Qt) (c : Command) (answers : Answers) {p : Process} (handlers : Handlers p) :
    ∃ p', execute qt c answers p = some (.ok (),p') := by
  cases c with
  | config m => exact ⟨_,config_defined qt m answers handlers⟩
  | subscribe m | start m | stop => exact ⟨_,rfl⟩

/-- Where the pointers are valid, a worker that has received a frame handles it. -/
theorem handle_defined (qt : Qt) (input : Input) {p : Process} {k : Nat} {w : Worker} {df : data_frame} (handlers : Handlers p)
    (there : p.workers[k]? = some w) (pc : w.pc = .handle df) : ∃ p', step qt p (.worker k input) = some p' := by
  obtain ⟨h,found,vector⟩ := handlers.sound (.worker k input) w there (.inl ⟨df,pc⟩)
  exact ⟨_,step_handle there pc found vector input⟩

end ZmqOut.HandlerPointer
