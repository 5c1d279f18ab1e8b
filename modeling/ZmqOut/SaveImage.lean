import ZmqOut.FileTree
import ZmqOut.Variant

/-!
saveImage and what it does to the file system. The directory of the file is tested
and made through a QDir that already stands there, so a relative one is looked for
inside itself; a filename without a slash is taken for its own directory.
-/
namespace ZmqOut.SaveImage
open ZmqOut.FileTree ZmqOut.DataStream ZmqOut.Variant

/-- The UTF-16 of a QString that holds a path. -/
abbrev Path := List UInt16

abbrev Files := FileSystem Path (List UInt8)

/-- The files there are, and the directory that relative paths start from. -/
structure Disk where
  files : Files
  current : Location Path
  there : files.node current = some .directory

/-- Which calls succeed; mkdir may depend on the location. -/
structure Answers where
  mkdir : Location Path → Bool
  opened : Bool
  written : Bool
  committed : Bool

/-- QSaveFile::commit publishes the data only if open and write have succeeded. -/
def Answers.publish (answers : Answers) : Bool := answers.opened && answers.written && answers.committed

def slash : UInt16 := 47

/-! ### Paths -/

/-- QString::lastIndexOf('/'). -/
def lastIndexOf : Path → Int
  | [] => -1
  | unit :: rest => if 0 ≤ lastIndexOf rest then lastIndexOf rest + 1 else if unit = slash then 0 else -1

/-- QString::left; a negative number stands for the whole string. -/
def left (s : Path) (n : Int) : Path := if n < 0 then s else s.take n.toNat

def isAbsolute (path : Path) : Bool := path.head? == some slash

def stepOf (name : Path) : Step Path :=
  if name = [] || name = key "." then .stay else if name = key ".." then .up else .down name

def steps (path : Path) : List (Step Path) := (path.splitOn slash).map stepOf

def start (current : Location Path) (path : Path) : Location Path := if isAbsolute path then [] else current

/-- The location that a path names. -/
def locate (current : Location Path) (path : Path) : Location Path := resolve (start current path) (steps path)

/-- The locations of the directories that a path goes through. -/
def ancestors (current : Location Path) (path : Path) : List (Location Path) := passed (start current path) (steps path)

/-- The location of a path if the way to it is there. The empty path leads nowhere. -/
def reach (files : Files) (current : Location Path) (path : Path) : Option (Location Path) :=
  if path = [] then none else files.walk (start current path) (steps path)

/-! ### The classes of Qt -/

/-- QFile::exists. -/
def QFile.exists (files : Files) (current : Location Path) (path : Path) : Bool :=
  match reach files current path with
  | some here => (files.node here).isSome
  | none => false

/-- QDir::QDir. -/
def QDir.new (path : Path) : Path := if path = [] then key "." else path

/-- QDir::filePath. -/
def QDir.filePath (dir name : Path) : Path :=
  if isAbsolute name then name else if dir.getLast? = some slash then dir ++ name else dir ++ slash :: name

/-- QDir::exists(name). -/
def QDir.exists (files : Files) (current : Location Path) (dir name : Path) : Bool :=
  name ≠ [] && QFile.exists files current (QDir.filePath dir name)

/-- QDir::mkpath, which cleans the path before it makes the directories on the way. -/
def QDir.mkpath (files : Files) (current : Location Path) (mkdir : Location Path → Bool) (dir name : Path) : Files :=
  if name = [] then files else files.mkpath mkdir (locate current (QDir.filePath dir name))

/-- open, write and commit of a QSaveFile; open fails for a directory. -/
def QSaveFile.save (files : Files) (current : Location Path) (answers : Answers) (filename : Path) (data : List UInt8) :
    Files :=
  match reach files current filename with
  | none => files
  | some here =>
    if free : files.Free here ∧ answers.publish then
      files.put here (.file data) free.1
    else files

/-! ### saveImage -/

/-- What comes before the QSaveFile; the result of mkpath is only logged. -/
def prepare (disk : Disk) (answers : Answers) (filename : Path) : Files :=
  let sPath := left filename (lastIndexOf filename)
  if QFile.exists disk.files disk.current filename then disk.files
  else
    let dir := QDir.new sPath
    if QDir.exists disk.files disk.current dir sPath then disk.files
    else QDir.mkpath disk.files disk.current answers.mkdir dir sPath

/-- The value that is returned and the files then. -/
def saveImage (disk : Disk) (answers : Answers) (filename : Path) (image : QByteArray) : Int × Files :=
  (0,QSaveFile.save (prepare disk answers filename) disk.current answers filename (image.getD []))

/-- The file is there with the image, and nothing else is new but directories on the way to it. -/
def Saved (disk : Disk) (filename : Path) (image : QByteArray) (files : Files) : Prop :=
  ∃ here, reach files disk.current filename = some here ∧ files.node here = some (.file (image.getD [])) ∧
    ∀ m, files.node m ≠ disk.files.node m →
      m = here ∨ m ∈ ancestors disk.current filename ∧ disk.files.node m = none ∧ files.node m = some .directory

/-- What saveImage returns is true. -/
def Truthful (disk : Disk) (answers : Answers) (filename : Path) (image : QByteArray) : Prop :=
  (saveImage disk answers filename image).1 = 0 → Saved disk filename image (saveImage disk answers filename image).2

/-- The location that mkpath is called for. -/
def asked (disk : Disk) (filename : Path) : Option (Location Path) :=
  let sPath := left filename (lastIndexOf filename)
  if QFile.exists disk.files disk.current filename || sPath = [] ||
      QFile.exists disk.files disk.current (QDir.filePath sPath sPath) then none
  else some (locate disk.current (QDir.filePath sPath sPath))

/-- A directory can be made here on the way to the location that mkpath is called for. -/
def Made (disk : Disk) (answers : Answers) (filename : Path) (m : Location Path) : Prop :=
  ∃ here, asked disk filename = some here ∧ disk.files.Makes answers.mkdir here m

/-- The conditions under which an image is saved. -/
structure Suits (disk : Disk) (answers : Answers) (filename : Path) (image : QByteArray) : Prop where
  /-- Every directory on the way is there or is made. -/
  way : ∀ m ∈ ancestors disk.current filename, disk.files.node m = some .directory ∨ Made disk answers filename m
  /-- The filename does not name a directory, nor one that is made. -/
  room : disk.files.node (locate disk.current filename) ≠ some .directory ∧
    ¬ Made disk answers filename (locate disk.current filename)
  /-- No directory is made that is not on the way. -/
  apart : ∀ m, Made disk answers filename m → m ∈ ancestors disk.current filename
  /-- The image is written, unless it is there already. -/
  stored : answers.publish = true ∨
    disk.files.node (locate disk.current filename) = some (.file (image.getD []))

/-! ### Where a file goes -/

theorem reach_eq_some {files : Files} {current here : Location Path} {path : Path} :
    reach files current path = some here ↔
      path ≠ [] ∧ here = locate current path ∧ ∀ m ∈ ancestors current path, files.node m = some .directory := by
  rw [reach]
  by_cases empty : path = []
  · simp [empty]
  · rw [if_neg empty,FileSystem.walk_eq_some]
    exact (and_iff_right empty).symm

theorem exists_iff {files : Files} {current : Location Path} {path : Path} :
    QFile.exists files current path ↔ path ≠ [] ∧ (∀ m ∈ ancestors current path, files.node m = some .directory) ∧
      files.node (locate current path) ≠ none := by
  rw [QFile.exists]
  cases reached : reach files current path with
  | none =>
    refine iff_of_false nofun ?_
    rintro ⟨nonempty,way,-⟩
    rw [reach_eq_some.mpr ⟨nonempty,rfl,way⟩] at reached
    cases reached
  | some here =>
    obtain ⟨nonempty,rfl,way⟩ := reach_eq_some.mp reached
    rw [and_iff_right nonempty,and_iff_right way]
    exact Option.isSome_iff_ne_none

theorem start_directory {files : Files} {current : Location Path} (there : files.node current = some .directory)
    (path : Path) : files.node (start current path) = some .directory := by
  unfold start
  split
  · exact files.root
  · exact there

/-- What a QSaveFile whose three calls succeed leaves. -/
theorem save_node {files : Files} {current here : Location Path} {answers : Answers} {filename : Path}
    (there : files.node current = some .directory) (reached : reach files current filename = some here)
    (other : files.node here ≠ some .directory) (succeed : answers.publish = true) (data : List UInt8)
    (m : Location Path) :
    (QSaveFile.save files current answers filename data).node m =
      if m = here then some (.file data) else files.node m := by
  have walks : files.walk (start current filename) (steps filename) = some here := by
    rwa [reach,if_neg (reach_eq_some.mp reached).1] at reached
  have free := FileSystem.walk_free (start_directory there filename) walks other
  simp only [QSaveFile.save,reached,dif_pos (And.intro free succeed)]
  exact Function.update_apply ..

theorem save_unchanged (files : Files) (current : Location Path) {answers : Answers} {filename : Path}
    (fails : ∀ here, reach files current filename = some here → files.node here ≠ some .directory → answers.publish = false)
    (data : List UInt8) :
    QSaveFile.save files current answers filename data = files := by
  rw [QSaveFile.save]
  split
  · rfl
  · rename_i here reached
    refine dif_neg ?_
    rintro ⟨free,succeed⟩
    rw [fails here reached free.2.2] at succeed
    cases succeed

/-! ### What is made -/

theorem prepare_eq (disk : Disk) (answers : Answers) (filename : Path) :
    prepare disk answers filename = match asked disk filename with
      | none => disk.files
      | some here => disk.files.mkpath answers.mkdir here := by
  simp only [prepare,asked]
  generalize left filename (lastIndexOf filename) = sPath
  by_cases present : QFile.exists disk.files disk.current filename = true
  · simp [present]
  · by_cases empty : sPath = []
    · simp [present,empty,QDir.exists,QDir.mkpath]
    · by_cases found : QFile.exists disk.files disk.current (QDir.filePath sPath sPath) = true
      · simp [present,empty,found,QDir.exists,QDir.new]
      · simp [present,empty,found,QDir.exists,QDir.mkpath,QDir.new]

/-- Before the QSaveFile there are new directories where they can be made, and all else is as
    it was. -/
theorem prepare_node (disk : Disk) (answers : Answers) (filename : Path) (m : Location Path) :
    (Made disk answers filename m → (prepare disk answers filename).node m = some .directory) ∧
      (¬ Made disk answers filename m → (prepare disk answers filename).node m = disk.files.node m) := by
  rw [prepare_eq]
  cases calls : asked disk filename with
  | none =>
    refine ⟨?_,fun _ => rfl⟩
    rintro ⟨here,called,-⟩
    rw [calls] at called
    cases called
  | some here =>
    have made : Made disk answers filename m ↔ disk.files.Makes answers.mkdir here m := by
      simp [Made,calls]
    rw [made]
    exact FileSystem.mkpath_node disk.files answers.mkdir here m

theorem prepare_directory {disk : Disk} {answers : Answers} {filename : Path} {m : Location Path} :
    (prepare disk answers filename).node m = some .directory ↔
      disk.files.node m = some .directory ∨ Made disk answers filename m := by
  obtain ⟨made,kept⟩ := prepare_node disk answers filename m
  by_cases makes : Made disk answers filename m
  · exact iff_of_true (made makes) (.inr makes)
  · rw [kept makes,or_iff_left makes]

/-- Nothing is made where something is. -/
theorem made_missing {disk : Disk} {answers : Answers} {filename : Path} {m : Location Path}
    (made : Made disk answers filename m) : disk.files.node m = none := by
  obtain ⟨here,-,makes⟩ := made
  exact makes.2.1

/-! ### Where mkpath is called for -/

theorem lastIndexOf_absent {s : Path} (absent : slash ∉ s) : lastIndexOf s = -1 := by
  induction s with
  | nil => rfl
  | cons unit rest ih =>
    obtain ⟨other,later⟩ := List.ne_and_not_mem_of_not_mem_cons absent
    rw [lastIndexOf,ih later,if_neg (by decide),if_neg (Ne.symm other)]

theorem lastIndexOf_append (s : Path) {base : Path} (absent : slash ∉ base) :
    lastIndexOf (s ++ slash :: base) = s.length := by
  induction s with
  | nil =>
    rw [List.nil_append,lastIndexOf,lastIndexOf_absent absent]
    rfl
  | cons unit rest ih =>
    rw [List.cons_append,lastIndexOf,ih,if_pos (Int.natCast_nonneg _)]
    rfl

/-- A filename without a slash is its own directory to saveImage. -/
theorem left_absent {filename : Path} (absent : slash ∉ filename) : left filename (lastIndexOf filename) = filename := by
  rw [lastIndexOf_absent absent]
  rfl

theorem left_append (s : Path) {base : Path} (absent : slash ∉ base) :
    left (s ++ slash :: base) (lastIndexOf (s ++ slash :: base)) = s := by
  rw [lastIndexOf_append s absent,left,if_neg (by omega),Int.toNat_natCast,List.take_left]

theorem steps_append (s t : Path) : steps (s ++ slash :: t) = steps s ++ steps t := by
  rw [steps,List.splitOn_append_cons_self,List.map_append]
  rfl

/-- mkpath is called for the directory of the file, against itself, when neither the file nor
    that directory is there. -/
theorem asked_eq_some {disk : Disk} {filename sPath : Path} {here : Location Path}
    (dir : left filename (lastIndexOf filename) = sPath) :
    asked disk filename = some here ↔
      ¬ QFile.exists disk.files disk.current filename ∧ sPath ≠ [] ∧
        ¬ QFile.exists disk.files disk.current (QDir.filePath sPath sPath) ∧
        here = locate disk.current (QDir.filePath sPath sPath) := by
  simp only [asked,dir]
  split
  · rename_i tests
    simp only [Bool.or_eq_true,decide_eq_true_eq] at tests
    refine iff_of_false nofun ?_
    rintro ⟨missing,nonempty,new,-⟩
    exact tests.elim (fun either => either.elim missing nonempty) new
  · rename_i tests
    simp only [Bool.or_eq_true,decide_eq_true_eq,not_or] at tests
    rw [Option.some.injEq,eq_comm]
    exact ⟨fun same => ⟨tests.1.1,tests.1.2,tests.2,same⟩,fun called => called.2.2.2⟩

/-- The directory of an absolute filename is made where it is, so nothing is made off the way. -/
theorem made_absolute {disk : Disk} {answers : Answers} {s base : Path} (absent : slash ∉ base)
    (absolute : isAbsolute (s ++ slash :: base)) {m : Location Path} (made : Made disk answers (s ++ slash :: base) m) :
    m ∈ ancestors disk.current (s ++ slash :: base) := by
  obtain ⟨here,called,suffix,missing,-⟩ := made
  obtain ⟨-,nonempty,-,rfl⟩ := (asked_eq_some (left_append s absent)).mp called
  have absoluteDir : isAbsolute s := by
    obtain ⟨unit,rest,rfl⟩ := List.exists_cons_of_ne_nil nonempty
    exact absolute
  have way : ancestors disk.current (s ++ slash :: base) =
      passed [] (steps s) ++ passed (resolve [] (steps s)) (steps base) := by
    rw [ancestors,start,if_pos absolute,steps_append,passed_append]
  rw [QDir.filePath,if_pos absoluteDir,locate,start,if_pos absoluteDir] at suffix
  rw [way]
  rcases suffix_passed suffix with root | rfl | listed
  · rw [List.suffix_nil.mp root,disk.files.root] at missing
    cases missing
  · have last : steps base ≠ [] := by simp [steps]
    obtain ⟨step,rest,split⟩ := List.exists_cons_of_ne_nil last
    rw [split,passed]
    exact List.mem_append_right _ List.mem_cons_self
  · exact List.mem_append_left _ listed

/-- A relative directory is looked for, and made, inside itself. -/
theorem locate_relative (current : Location Path) {s : Path} (relative : ¬ isAbsolute s) (nonempty : s ≠ []) :
    locate current (QDir.filePath s s) = resolve (locate current s) (steps s) := by
  have joined : ∀ t : Path, ¬ isAbsolute (s ++ t) := by
    intro t
    obtain ⟨unit,rest,rfl⟩ := List.exists_cons_of_ne_nil nonempty
    exact relative
  rw [QDir.filePath,if_neg relative]
  by_cases ends : s.getLast? = some slash
  · obtain ⟨t,rfl⟩ := List.getLast?_eq_some_iff.mp ends
    have twice : steps (t ++ [slash] ++ (t ++ [slash])) = steps t ++ steps (t ++ [slash]) := by
      rw [List.append_assoc,List.singleton_append,steps_append]
    have once : steps (t ++ [slash]) = steps t ++ [.stay] := by
      rw [steps_append]
      rfl
    rw [if_pos ends,locate,locate,start,start,if_neg (joined _),if_neg relative,twice,resolve_append]
    congr 1
    rw [once,resolve_append]
    rfl
  · rw [if_neg ends,locate,locate,start,start,if_neg (joined _),if_neg relative,steps_append,resolve_append]

/-- A filename that is a name alone is made a directory, unless something has this name or it
    may not be made. -/
theorem made_slash_free {disk : Disk} {answers : Answers} {filename : Path} (absent : slash ∉ filename)
    (name : stepOf filename = .down filename) (missing : disk.files.node (filename :: disk.current) = none)
    (permitted : answers.mkdir (filename :: disk.current)) :
    Made disk answers filename (locate disk.current filename) := by
  have nonempty : filename ≠ [] := by
    rintro rfl
    cases name
  have relative : ¬ isAbsolute filename := by
    obtain ⟨unit,rest,rfl⟩ := List.exists_cons_of_ne_nil nonempty
    have other := (List.ne_and_not_mem_of_not_mem_cons absent).1
    simpa [isAbsolute] using Ne.symm other
  have single : steps filename = [.down filename] := by
    rw [steps,List.splitOn_eq_singleton absent,List.map_singleton,name]
  have target : locate disk.current filename = filename :: disk.current := by
    rw [locate,start,if_neg relative,single]
    rfl
  have inside : locate disk.current (QDir.filePath filename filename) = filename :: filename :: disk.current := by
    rw [locate_relative disk.current relative nonempty,target,single]
    rfl
  have called : asked disk filename = some (filename :: filename :: disk.current) := by
    refine (asked_eq_some (left_absent absent)).mpr ⟨?_,nonempty,?_,inside.symm⟩
    · intro present
      exact (exists_iff.mp present).2.2 (target ▸ missing)
    · intro present
      have above := disk.files.parent _ _ (inside ▸ (exists_iff.mp present).2.2)
      rw [missing] at above
      cases above
  rw [target]
  refine ⟨_,called,List.suffix_cons _ _,missing,FileSystem.canMake_cons.mpr ⟨?_,.inr ⟨missing,permitted⟩⟩⟩
  exact fun m suffix => .inl (FileSystem.directory_above disk.there suffix)

/-- A directory is made inside a relative directory, under its name, where there is none and one may
    be made. -/
theorem made_relative {disk : Disk} {answers : Answers} {s base : Path} (absent : slash ∉ base)
    (relative : ¬ isAbsolute s) (nonempty : s ≠ []) (new : ¬ QFile.exists disk.files disk.current (s ++ slash :: base))
    (missing : disk.files.node (resolve (locate disk.current s) (steps s)) = none)
    (permitted : disk.files.CanMake answers.mkdir (resolve (locate disk.current s) (steps s))) :
    Made disk answers (s ++ slash :: base) (resolve (locate disk.current s) (steps s)) := by
  have inside := locate_relative disk.current relative nonempty
  have called : asked disk (s ++ slash :: base) = some (resolve (locate disk.current s) (steps s)) := by
    refine (asked_eq_some (left_append s absent)).mpr ⟨new,nonempty,?_,inside.symm⟩
    intro present
    exact (exists_iff.mp present).2.2 (inside ▸ missing)
  exact ⟨_,called,List.suffix_rfl,missing,permitted⟩

/-- This directory is not on the way to the file if no step of the path leads up. -/
theorem inside_off_way {disk : Disk} {s base : Path} (absent : slash ∉ base) (relative : ¬ isAbsolute s)
    (nonempty : s ≠ []) (noUp : .up ∉ steps s)
    (missing : disk.files.node (resolve (locate disk.current s) (steps s)) = none) :
    resolve (locate disk.current s) (steps s) ∉ ancestors disk.current (s ++ slash :: base) := by
  intro listed
  obtain ⟨names,leads⟩ := resolve_names noUp
  have joined : ¬ isAbsolute (s ++ slash :: base) := by
    obtain ⟨unit,rest,rfl⟩ := List.exists_cons_of_ne_nil nonempty
    exact relative
  have last : steps base = [stepOf base] := by rw [steps,List.splitOn_eq_singleton absent,List.map_singleton]
  have above : resolve (locate disk.current s) (steps s) <:+ resolve disk.current (steps s) := by
    rw [ancestors,start,if_neg joined,steps_append,passed_append,last] at listed
    rcases List.mem_append.mp listed with passes | ends
    · exact passed_above noUp passes
    · exact List.mem_singleton.mp ends ▸ List.suffix_rfl
  rw [locate,start,if_neg relative,leads,leads] at above missing
  -- The way would end as deep as it goes twice, so that it leads nowhere but to the current directory.
  have short := above.length_le
  rw [List.length_append,List.length_append] at short
  have nowhere : names = [] := List.eq_nil_of_length_eq_zero (by omega)
  rw [nowhere,List.nil_append,List.nil_append,disk.there] at missing
  cases missing

/-! ### The truth of the result -/

/-- The QSaveFile touches its file alone, and the image gets there by it unless it was there. -/
theorem saveImage_frame {disk : Disk} {answers : Answers} {filename : Path} {image : QByteArray}
    (holds : (saveImage disk answers filename image).2.node (locate disk.current filename) =
      some (.file (image.getD []))) :
    (∀ m, m ≠ locate disk.current filename →
      (saveImage disk answers filename image).2.node m = (prepare disk answers filename).node m) ∧
    (prepare disk answers filename).node (locate disk.current filename) ≠ some .directory ∧
    (answers.publish = true ∨
      (prepare disk answers filename).node (locate disk.current filename) = some (.file (image.getD []))) := by
  have there : (prepare disk answers filename).node disk.current = some .directory :=
    prepare_directory.mpr (.inl disk.there)
  simp only [saveImage] at holds ⊢
  by_cases stores : reach (prepare disk answers filename) disk.current filename = some (locate disk.current filename) ∧
      (prepare disk answers filename).node (locate disk.current filename) ≠ some .directory ∧ answers.publish = true
  · obtain ⟨reached,other,succeed⟩ := stores
    refine ⟨fun m apart => ?_,other,.inl succeed⟩
    rw [save_node there reached other succeed,if_neg apart]
  · have fails : ∀ here, reach (prepare disk answers filename) disk.current filename = some here →
        (prepare disk answers filename).node here ≠ some .directory → answers.publish = false := by
      intro here reached other
      obtain ⟨-,rfl,-⟩ := reach_eq_some.mp reached
      exact Bool.eq_false_iff.mpr fun succeed => stores ⟨reached,other,succeed⟩
    rw [save_unchanged _ _ fails] at holds ⊢
    exact ⟨fun m _ => rfl,by rw [holds]; simp,.inr holds⟩

theorem suits_of_saved {disk : Disk} {answers : Answers} {filename : Path} {image : QByteArray}
    (saved : Saved disk filename image (saveImage disk answers filename image).2) :
    Suits disk answers filename image := by
  obtain ⟨here,reached,holds,changed⟩ := saved
  obtain ⟨-,rfl,way⟩ := reach_eq_some.mp reached
  obtain ⟨frame,other,stored⟩ := saveImage_frame holds
  obtain ⟨empty,unmade⟩ := not_or.mp (mt prepare_directory.mpr other)
  refine ⟨?_,⟨empty,unmade⟩,?_,?_⟩
  · intro m passes
    have apart : m ≠ locate disk.current filename := by
      rintro rfl
      rw [way _ passes] at holds
      cases holds
    exact prepare_directory.mp (frame m apart ▸ way m passes)
  · intro m made
    have apart : m ≠ locate disk.current filename := by
      rintro rfl
      exact unmade made
    have directory := (frame m apart).trans ((prepare_node disk answers filename m).1 made)
    have new := changed m (by rw [directory,made_missing made]; simp)
    exact (new.resolve_left apart).1
  · exact stored.imp_right fun before => ((prepare_node disk answers filename _).2 unmade).symm.trans before

theorem saved_of_suits {disk : Disk} {answers : Answers} {filename : Path} {image : QByteArray}
    (suits : Suits disk answers filename image) : Saved disk filename image (saveImage disk answers filename image).2 := by
  obtain ⟨way,⟨empty,unmade⟩,apart,stored⟩ := suits
  have there : (prepare disk answers filename).node disk.current = some .directory :=
    prepare_directory.mpr (.inl disk.there)
  have named : filename ≠ [] := by
    rintro rfl
    exact empty disk.there
  have other : (prepare disk answers filename).node (locate disk.current filename) ≠ some .directory :=
    fun directory => (prepare_directory.mp directory).elim empty unmade
  have passes : ∀ m ∈ ancestors disk.current filename, (prepare disk answers filename).node m = some .directory :=
    fun m listed => prepare_directory.mpr (way m listed)
  have reached : reach (prepare disk answers filename) disk.current filename = some (locate disk.current filename) :=
    reach_eq_some.mpr ⟨named,rfl,passes⟩
  have new : ∀ m, (prepare disk answers filename).node m ≠ disk.files.node m →
      m ∈ ancestors disk.current filename ∧ disk.files.node m = none ∧
        (prepare disk answers filename).node m = some .directory := by
    intro m changed
    have made := of_not_not (mt (prepare_node disk answers filename m).2 changed)
    exact ⟨apart m made,made_missing made,(prepare_node disk answers filename m).1 made⟩
  rw [saveImage]
  by_cases succeed : answers.publish = true
  · have node := save_node there reached other succeed (image.getD [])
    refine ⟨_,reach_eq_some.mpr ⟨named,rfl,fun m listed => ?_⟩,by rw [node,if_pos rfl],fun m changed => ?_⟩
    · have apart : m ≠ locate disk.current filename := by
        rintro rfl
        exact other (passes _ listed)
      rw [node,if_neg apart]
      exact passes m listed
    · by_cases same : m = locate disk.current filename
      · exact .inl same
      · rw [node,if_neg same] at changed ⊢
        exact .inr (new m changed)
  · have kept := (prepare_node disk answers filename _).2 unmade
    rw [save_unchanged _ _ fun _ _ _ => Bool.eq_false_iff.mpr succeed]
    exact ⟨_,reached,kept.trans (stored.resolve_left succeed),fun m changed => .inr (new m changed)⟩

/-- The result 0 is true exactly when the conditions are met. -/
theorem image_saved_iff (disk : Disk) (answers : Answers) (filename : Path) (image : QByteArray) :
    Truthful disk answers filename image ↔ Suits disk answers filename image :=
  ⟨fun truthful => suits_of_saved (truthful rfl),fun suits _ => saved_of_suits suits⟩

/-- A file that is there already gets the new image. -/
theorem existing_saved {disk : Disk} {answers : Answers} {filename : Path} (image : QByteArray) {data : List UInt8}
    {here : Location Path} (reached : reach disk.files disk.current filename = some here)
    (holds : disk.files.node here = some (.file data)) (succeed : answers.publish = true) :
    Saved disk filename image (saveImage disk answers filename image).2 := by
  obtain ⟨nonempty,rfl,way⟩ := reach_eq_some.mp reached
  have unmade : ∀ m, ¬ Made disk answers filename m := by
    rintro m ⟨here,called,-⟩
    refine ((asked_eq_some rfl).mp called).1 (exists_iff.mpr ⟨nonempty,way,?_⟩)
    rw [holds]
    exact Option.some_ne_none _
  refine saved_of_suits ⟨fun m passes => .inl (way m passes),⟨?_,unmade _⟩,fun m made => absurd made (unmade m),.inl succeed⟩
  rw [holds]
  simp

/-- No new file whose name has no slash is saved where a directory could be made. -/
theorem slash_free_not_saved {disk : Disk} {answers : Answers} {filename : Path} (image : QByteArray)
    (absent : slash ∉ filename) (name : stepOf filename = .down filename)
    (missing : disk.files.node (filename :: disk.current) = none) (permitted : answers.mkdir (filename :: disk.current)) :
    ¬ Saved disk filename image (saveImage disk answers filename image).2 :=
  fun saved => (suits_of_saved saved).room.2 (made_slash_free absent name missing permitted)

/-- No new file in a relative directory is saved where a directory could be made inside that directory,
    under its name. -/
theorem relative_not_saved {disk : Disk} {answers : Answers} {s base : Path} (image : QByteArray) (absent : slash ∉ base)
    (relative : ¬ isAbsolute s) (nonempty : s ≠ []) (noUp : .up ∉ steps s)
    (new : ¬ QFile.exists disk.files disk.current (s ++ slash :: base))
    (missing : disk.files.node (resolve (locate disk.current s) (steps s)) = none)
    (permitted : disk.files.CanMake answers.mkdir (resolve (locate disk.current s) (steps s))) :
    ¬ Saved disk (s ++ slash :: base) image (saveImage disk answers (s ++ slash :: base) image).2 := by
  intro saved
  have made := made_relative absent relative nonempty new missing permitted
  exact inside_off_way absent relative nonempty noUp missing ((suits_of_saved saved).apart _ made)

/-- A root directory without anything in it. -/
def emptyDisk : Disk where
  files := ⟨fun m => if m = [] then some .directory else none,rfl,fun _ _ present => absurd rfl present⟩
  current := []
  there := rfl

def Answers.granted : Answers := ⟨fun _ => true,true,true,true⟩

/-- A directory with the name of the file is made, and another one inside it. -/
theorem directory_for_file :
    (saveImage emptyDisk .granted (key "x.jpg") (some [1])).1 = 0 ∧
    (saveImage emptyDisk .granted (key "x.jpg") (some [1])).2.node [key "x.jpg"] = some .directory ∧
    (saveImage emptyDisk .granted (key "x.jpg") (some [1])).2.node [key "x.jpg",key "x.jpg"] = some .directory ∧
    (saveImage emptyDisk .granted (key "a/x.jpg") (some [1])).2.node [key "a",key "a"] = some .directory ∧
    ¬ Truthful emptyDisk .granted (key "x.jpg") (some [1]) ∧ ¬ Truthful emptyDisk .granted (key "a/x.jpg") (some [1]) := by
  refine ⟨rfl,by decide,by decide,by decide,?_,?_⟩
  · intro truthful
    exact slash_free_not_saved (some [1]) (by decide) (by decide) rfl rfl (truthful rfl)
  · intro truthful
    have permitted : emptyDisk.files.CanMake Answers.granted.mkdir [key "a",key "a"] := by
      intro m _
      by_cases root : m = []
      · exact .inl (if_pos root)
      · exact .inr ⟨if_neg root,rfl⟩
    exact @relative_not_saved emptyDisk .granted (key "a") (key "x.jpg") (some [1]) (by decide) (by decide) (by decide)
      (by decide) (by decide) rfl permitted (truthful rfl)

end ZmqOut.SaveImage
