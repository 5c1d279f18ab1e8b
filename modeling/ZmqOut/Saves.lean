import ZmqOut.Runs
import ZmqOut.SaveImage

/-!
Images that are saved one after the other. However the calls of saveImage succeed or
fail, a file has what was stored in it last, and apart from the files that are
stored nothing changes but that directories appear where nothing was.
-/
namespace ZmqOut.Saves
open ZmqOut.Runs ZmqOut.FileTree ZmqOut.DataStream ZmqOut.Variant ZmqOut.SaveImage

/-- One call of saveImage and the answers to its calls. -/
structure Save where
  answers : Answers
  filename : Path
  image : QByteArray

/-- Where the QSaveFile stores the image, if it does. -/
def target (disk : Disk) (save : Save) : Option (Location Path) :=
  (reach (prepare disk save.answers save.filename) disk.current save.filename).filter fun here =>
    (prepare disk save.answers save.filename).node here ≠ some .directory && save.answers.publish

theorem target_eq_some {disk : Disk} {save : Save} {here : Location Path} : target disk save = some here ↔
    reach (prepare disk save.answers save.filename) disk.current save.filename = some here ∧
      (prepare disk save.answers save.filename).node here ≠ some .directory ∧ save.answers.publish = true := by
  simp [target,Option.filter_eq_some_iff]

/-- What one call leaves at a location. -/
theorem saveImage_node (disk : Disk) (save : Save) (m : Location Path) :
    (saveImage disk save.answers save.filename save.image).2.node m =
      if target disk save = some m then some (.file (save.image.getD []))
      else (prepare disk save.answers save.filename).node m := by
  have there : (prepare disk save.answers save.filename).node disk.current = some .directory :=
    prepare_directory.mpr (.inl disk.there)
  cases stored : target disk save with
  | some here =>
    obtain ⟨reached,other,succeed⟩ := target_eq_some.mp stored
    rw [saveImage,save_node there reached other succeed]
    simp only [Option.some.injEq,eq_comm]
  | none =>
    rw [saveImage,save_unchanged,if_neg (by simp)]
    intro here reached other
    by_contra succeed
    rw [target_eq_some.mpr ⟨reached,other,by simpa using succeed⟩] at stored
    cases stored

/-- A directory stays one. -/
theorem saveImage_directory {disk : Disk} (save : Save) {m : Location Path} (directory : disk.files.node m = some .directory) :
    (saveImage disk save.answers save.filename save.image).2.node m = some .directory := by
  have before : (prepare disk save.answers save.filename).node m = some .directory := prepare_directory.mpr (.inl directory)
  rw [saveImage_node,if_neg,before]
  intro stored
  exact (target_eq_some.mp stored).2.1 before

/-- The disk after a call. -/
def step (disk : Disk) (save : Save) : Option Disk :=
  some ⟨(saveImage disk save.answers save.filename save.image).2,disk.current,saveImage_directory save disk.there⟩

/-- What is stored where. -/
def stores (disk : Disk) (save : Save) : List (Location Path × List UInt8) :=
  ((target disk save).map fun here => (here,save.image.getD [])).toList

/-- The image that was stored last at a location. -/
def last (m : Location Path) (stored : List (Location Path × List UInt8)) : Option (List UInt8) :=
  (stored.filterMap fun entry => if entry.1 = m then some entry.2 else none).getLast?

theorem last_append (m : Location Path) (stored new : List (Location Path × List UInt8)) :
    last m (stored ++ new) = (last m new).or (last m stored) := by
  rw [last,List.filterMap_append,List.getLast?_append]
  rfl

theorem last_stores (disk : Disk) (save : Save) (m : Location Path) :
    last m (stores disk save) = if target disk save = some m then some (save.image.getD []) else none := by
  cases stored : target disk save with
  | none => simp [last,stores,stored]
  | some here => by_cases same : here = m <;> simp [last,stores,stored,same]

/-- What the locations hold after these images were stored on a disk. -/
structure Keeps (disk : Disk) (stored : List (Location Path × List UInt8)) (disk' : Disk) : Prop where
  directories : ∀ m, disk.files.node m = some .directory → disk'.files.node m = some .directory
  latest : ∀ m data, last m stored = some data → disk'.files.node m = some (.file data)
  others : ∀ m, last m stored = none →
    disk'.files.node m = disk.files.node m ∨ disk.files.node m = none ∧ disk'.files.node m = some .directory

theorem step_keeps {start disk disk' : Disk} {save : Save} {stored : List (Location Path × List UInt8)}
    (keeps : Keeps start stored disk) (taken : step disk save = some disk') :
    Keeps start (stored ++ stores disk save) disk' := by
  cases taken
  have node := saveImage_node disk save
  refine ⟨?_,?_,?_⟩
  · intro m directory
    exact saveImage_directory save (keeps.directories m directory)
  · intro m data latest
    rw [last_append,last_stores] at latest
    show (saveImage disk save.answers save.filename save.image).2.node m = some (.file data)
    rw [node]
    by_cases now : target disk save = some m
    · rw [if_pos now] at latest ⊢
      rw [Option.some_or] at latest
      rw [Option.some.inj latest]
    · rw [if_neg now] at latest ⊢
      have before := keeps.latest m data latest
      have unmade : ¬ Made disk save.answers save.filename m := by
        intro made
        rw [made_missing made] at before
        cases before
      rw [(prepare_node disk save.answers save.filename m).2 unmade,before]
  · intro m none
    rw [last_append,last_stores,Option.or_eq_none_iff] at none
    obtain ⟨now,earlier⟩ := none
    have elsewhere : target disk save ≠ some m := by
      intro same
      rw [if_pos same] at now
      cases now
    show (saveImage disk save.answers save.filename save.image).2.node m = _ ∨ _ ∧
      (saveImage disk save.answers save.filename save.image).2.node m = _
    rw [node,if_neg elsewhere]
    obtain ⟨makes,keeps'⟩ := prepare_node disk save.answers save.filename m
    by_cases made : Made disk save.answers save.filename m
    · have missing := made_missing made
      refine .inr ⟨?_,makes made⟩
      rcases keeps.others m earlier with same | ⟨absent,-⟩
      · rw [← same,missing]
      · exact absent
    · rw [keeps' made]
      exact keeps.others m earlier

/-- After any calls of saveImage a location that an image was stored at holds the last one, every other one what it held
    before or, where there was nothing, perhaps a directory, and a directory is still one. -/
theorem saves_keep (disk disk' : Disk) (saves : List Save) (executed : run step disk saves = some disk') :
    Keeps disk (trace step stores disk saves) disk' := by
  have start : Keeps disk [] disk := ⟨fun _ => id,nofun,fun _ _ => .inl rfl⟩
  have advance : ∀ stored d save d', Keeps disk stored d → True → step d save = some d' →
      Keeps disk (stored ++ stores d save) d' := fun _ _ _ _ keeps _ taken => step_keeps keeps taken
  simpa using run_history advance [] start (meets_of_forall (fun _ _ _ => trivial) _) executed

/-- A file that is saved twice. -/
def twice : List Save := [⟨.granted,key "/x.jpg",some [1]⟩,⟨.granted,key "/x.jpg",some [2]⟩]

theorem saves_keep_twice : ∃ disk, run step emptyDisk twice = some disk ∧ disk.files.node [key "x.jpg"] = some (.file [2]) :=
  ⟨_,rfl,(saves_keep emptyDisk _ twice rfl).latest [key "x.jpg"] [2] (by decide)⟩

end ZmqOut.Saves
