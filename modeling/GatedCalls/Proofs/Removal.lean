import GatedCalls.Proofs.ClassDirectory.Relocation
import GatedCalls.Proofs.Redirection.Refusal
import GatedCalls.Proofs.Resolution.Assembly
import GatedCalls.Removal

/-!
# Removals are all or nothing

A removal reads the table, the libraries and the application, builds the release and writes it. All
stages but the last one only read, so where one of them fails the disk is as it was
(`Removal.Refused`). A removal that succeeds has passed all of them (`Removal.Gathers`), and its
report tells what they have found. What it has written is read back, if the output is reached
through directories that are there. Where its path leads up again from a directory that is missing,
what was left behind in the staging directory is shipped too
(`RemovalSample.run_ships_class_left_behind`).
-/

namespace GatedCalls

open Disk (Path)

/-- Loads libraries one after another, up to the first one that fails. -/
def Markers.loadEach (ms : Markers) (requested : PermissionSet) (known : Replacements)
    (programs : List Program) : Except Failure Replacements :=
  programs.foldlM (fun known p => (ms.load p requested known).value) known

/-- The classes of libraries that are loaded come behind those that are there, library by
library. -/
theorem Markers.classes_of_loadEach {ms : Markers} {requested : PermissionSet}
    {known loaded : Replacements} {programs : List Program}
    (h : ms.loadEach requested known programs = .ok loaded) :
    loaded.classes = known.classes ++ programs.flatMap ms.offeredClasses := by
  unfold loadEach at h
  induction programs generalizing known with
  | nil =>
    obtain rfl : known = loaded := by simpa [pure, Except.pure] using h
    simp
  | cons p programs ih =>
    rw [List.foldlM_cons] at h
    cases hload : (ms.load p requested known).value with
    | error f => simp [hload, bind, Except.bind] at h
    | ok next =>
      rw [hload] at h
      obtain ⟨decoded, -, rfl⟩ := exists_decoded_of_load hload
      rw [ih h, Replacements.addClasses, Replacements.classes_addAll, List.append_assoc,
        List.flatMap_cons]

/-- Reading a permission table only reads. -/
theorem PermissionTable.onlyReads_readFrom (p : Path) : (readFrom p).OnlyReads :=
  (Run.onlyReads_reading _ _).bind fun _ => (Run.onlyReads_ofExcept _).bind fun _ =>
    (Run.onlyReads_report _ _ _).bind fun _ => Run.onlyReads_pure _

namespace Removal

variable {r : Removal} {d d' : Disk} {library : Path} {libraries : List Path} {p : Program}
variable {known loaded : Replacements}

/-! ### Libraries -/

/-- Loading a library only reads. -/
theorem onlyReads_loadLibrary (r : Removal) (known : Replacements) (library : Path) :
    (r.loadLibrary known library).OnlyReads :=
  (ClassDirectory.onlyReads_read _ _).bind fun _ => (Run.onlyReads_ofLogged _).bind fun _ =>
    Run.onlyReads_ofExcept _

/-- Loading all libraries only reads. -/
theorem onlyReads_loadLibraries (r : Removal) : r.loadLibraries.OnlyReads :=
  (Run.onlyReads_foldlM r.onlyReads_loadLibrary _ _).bind fun _ =>
    (Run.onlyReads_report _ _ _).bind fun _ => Run.onlyReads_pure _

/-- A library that can be read is loaded. -/
theorem ends_loadLibrary (h : (ClassDirectory.read library r.apiLevel).Ends d (.ok p) d)
    (known : Replacements) : (r.loadLibrary known library).Ends d
      ((r.markers.load p r.permissions known).value.mapError (·.within library.text)) d :=
  h.bind ((Run.ends_ofLogged _ d).bind (Run.ends_ofExcept _ d))

/-- Whether programs are what is read of libraries, one for each. -/
def Reads (r : Removal) (d : Disk) (libraries : List Path) (programs : List Program) : Prop :=
  List.Forall₂ (fun library p => (ClassDirectory.read library r.apiLevel).Ends d (.ok p) d)
    libraries programs

/-- Libraries have been loaded one after the other only if each of them has been read, and what was
read has been loaded. -/
theorem exists_of_foldlM_loadLibrary
    (h : (libraries.foldlM r.loadLibrary known).Ends d (.ok loaded) d) :
    ∃ programs, r.Reads d libraries programs ∧
      r.markers.loadEach r.permissions known programs = .ok loaded := by
  induction libraries generalizing known with
  | nil =>
    obtain ⟨hloaded, -⟩ := h.unique (Run.ends_pure known d)
    exact ⟨[], .nil, hloaded.symm⟩
  | cons library libraries ih =>
    rw [List.foldlM_cons] at h
    obtain ⟨next, hnext, hrest⟩ := h.exists_of_bind_onlyReads (r.onlyReads_loadLibrary known library)
      fun next => (Run.onlyReads_foldlM r.onlyReads_loadLibrary libraries next).isSettled
    obtain ⟨p, hp, -⟩ := hnext.exists_of_bind_onlyReads
      (ClassDirectory.onlyReads_read library r.apiLevel) fun p =>
        ((Run.onlyReads_ofLogged _).bind fun _ => Run.onlyReads_ofExcept _).isSettled
    obtain ⟨programs, hprograms, hloaded⟩ := ih hrest
    obtain ⟨hresult, -⟩ := hnext.unique (ends_loadLibrary hp known)
    refine ⟨p :: programs, .cons hp hprograms, ?_⟩
    rw [Markers.loadEach, List.foldlM_cons]
    cases hload : (r.markers.load p r.permissions known).value with
    | error f => simp [hload, Except.mapError] at hresult
    | ok next' =>
      obtain rfl : next = next' := by simpa [hload, Except.mapError] using hresult
      exact hloaded

/-- Where libraries have been loaded, none of them is unreadable. -/
theorem Reads.exists_of_mem {programs : List Program} (h : r.Reads d libraries programs)
    (hmem : library ∈ libraries) :
    ∃ p ∈ programs, (ClassDirectory.read library r.apiLevel).Ends d (.ok p) d := by
  induction h with
  | nil => cases hmem
  | cons hp _ ih =>
    obtain rfl | hmem := List.mem_cons.mp hmem
    · exact ⟨_, List.mem_cons_self, hp⟩
    · obtain ⟨p, hp, hread⟩ := ih hmem
      exact ⟨p, List.mem_cons_of_mem _ hp, hread⟩

/-- What is read of libraries is read once and for all. -/
theorem Reads.unique {programs programs' : List Program} (h : r.Reads d libraries programs)
    (h' : r.Reads d libraries programs') : programs = programs' := by
  induction h generalizing programs' with
  | nil =>
    cases h'
    rfl
  | cons hp _ ih =>
    cases h' with
    | cons hp' hrest =>
      cases (hp.unique hp').1
      rw [ih hrest]

/-- Where libraries have been loaded, the load of none of them fails, whatever is known. -/
theorem load_ne_error_of_loadEach {ms : Markers} {requested : PermissionSet}
    {programs : List Program} (h : ms.loadEach requested known programs = .ok loaded)
    (hp : p ∈ programs) (known' : Replacements) (f : Failure) :
    (ms.load p requested known').value ≠ .error f := by
  unfold Markers.loadEach at h
  induction programs generalizing known with
  | nil => cases hp
  | cons p' programs ih =>
    rw [List.foldlM_cons] at h
    cases hload : (ms.load p' requested known).value with
    | error f => simp [hload, bind, Except.bind] at h
    | ok next =>
      rw [hload] at h
      obtain rfl | hp := List.mem_cons.mp hp
      · intro herror
        rw [Markers.load_eq_error.mpr (Markers.load_eq_error.mp herror)] at hload
        cases hload
      · exact ih h hp

/-! ### Stages -/

/-- Whether a removal reads what it needs: the table, of each library a program, of which all
together `known` is taken over, and the application. -/
structure Gathers (r : Removal) (d : Disk) (table : PermissionTable) (programs : List Program)
    (known : Replacements) (target : Program) : Prop where
  /-- The file of the table is read, and is one. -/
  readsTable : (PermissionTable.readFrom r.table).Ends d (.ok table) d
  /-- All libraries are read as programs. -/
  readsLibraries : r.Reads d r.libraries programs
  /-- All libraries are loaded, one after another. -/
  loads : r.markers.loadEach r.permissions .empty programs = .ok known
  /-- The application is read as a program. -/
  readsInput : (ClassDirectory.read r.input r.apiLevel).Ends d (.ok target) d

/-- Whether a removal is refused before anything is written: the table, a library or the application
cannot be read, a library cannot be loaded, or no release can be built of what has been read. -/
inductive Refused (r : Removal) (d : Disk) : Prop where
  | table {f : Failure} (h : (PermissionTable.readFrom r.table).Ends d (.error f) d)
  | library {library : Path} {f : Failure} (hmem : library ∈ r.libraries)
    (h : (ClassDirectory.read library r.apiLevel).Ends d (.error f) d)
  | load {library : Path} {p : Program} {known : Replacements} {f : Failure}
    (hmem : library ∈ r.libraries)
    (hread : (ClassDirectory.read library r.apiLevel).Ends d (.ok p) d)
    (h : (r.markers.load p r.permissions known).value = .error f)
  | input {f : Failure} (h : (ClassDirectory.read r.input r.apiLevel).Ends d (.error f) d)
  | release {table : PermissionTable} {programs : List Program} {known : Replacements}
    {target : Program} {f : Failure} (hgathers : r.Gathers d table programs known target)
    (h : (Release.build target known table r.removesVoid).value = .error f)

variable {table : PermissionTable} {programs : List Program} {target : Program} {release : Release}

/-- A removal that gathers what it needs is not refused if a release can be built of it. -/
theorem Gathers.not_refused (h : r.Gathers d table programs known target)
    (hbuild : (Release.build target known table r.removesVoid).value = .ok release) :
    ¬r.Refused d := by
  rintro (herror | ⟨hmem, herror⟩ | ⟨hmem, hread, herror⟩ | herror | ⟨hgathers, herror⟩)
  · cases (h.readsTable.unique herror).1
  · obtain ⟨p, -, hp⟩ := h.readsLibraries.exists_of_mem hmem
    cases (hp.unique herror).1
  · obtain ⟨p, hp, hread'⟩ := h.readsLibraries.exists_of_mem hmem
    cases (hread.unique hread').1
    exact load_ne_error_of_loadEach h.loads hp _ _ herror
  · cases (h.readsInput.unique herror).1
  · cases (h.readsTable.unique hgathers.readsTable).1
    cases (h.readsInput.unique hgathers.readsInput).1
    cases h.readsLibraries.unique hgathers.readsLibraries
    cases h.loads.symm.trans hgathers.loads
    cases hbuild.symm.trans herror

/-- What a removal reports of a release that it has written. -/
def reportOf (known : Replacements) (release : Release) : RemovalReport :=
  ⟨release.tally, release.program.classes.length, known.classes.length, known.redirectionCount⟩

/-- A removal that has read everything ends as building the release and writing it end. -/
theorem ends_run {result : Except Failure Unit}
    (htable : (PermissionTable.readFrom r.table).Ends d (.ok table) d)
    (hknown : r.loadLibraries.Ends d (.ok known) d)
    (htarget : (ClassDirectory.read r.input r.apiLevel).Ends d (.ok target) d)
    (hbuild : (Release.build target known table r.removesVoid).value = .ok release)
    (hwrite : (ClassDirectory.write release.program r.output).Ends d result d') :
    r.run.Ends d (result.map fun _ => reportOf known release) d' := by
  refine htable.bind (hknown.bind (htarget.bind ((Run.ends_ofLogged _ d).bind ?_)))
  rw [hbuild]
  refine (Run.ends_ofExcept (.ok release) d).bind ?_
  cases result with
  | error f => exact hwrite.bind_error
  | ok a => exact hwrite.bind (Run.ends_pure _ d')

/-- Where libraries are loaded, they have been read and loaded one after the other. -/
theorem exists_of_ends_loadLibraries (h : r.loadLibraries.Ends d (.ok known) d) :
    ∃ programs, r.Reads d r.libraries programs ∧
      r.markers.loadEach r.permissions .empty programs = .ok known := by
  obtain ⟨loaded, hfold, hrest⟩ := h.exists_of_bind_onlyReads
    (Run.onlyReads_foldlM r.onlyReads_loadLibrary _ _) fun _ =>
      ((Run.onlyReads_report _ _ _).bind fun _ => Run.onlyReads_pure _).isSettled
  have hsame := hrest.unique ((Run.ends_report _ _ _ d).bind (Run.ends_pure loaded d))
  obtain rfl : known = loaded := Except.ok.inj hsame.1
  exact exists_of_foldlM_loadLibrary hfold

/-- A removal either fails before anything is written, or it gathers what it needs and ends as
writing the release ends. -/
theorem run_cases (r : Removal) (d : Disk) :
    (∃ f, r.run.Ends d (.error f) d) ∨
    ∃ table programs known target release, r.Gathers d table programs known target ∧
      (Release.build target known table r.removesVoid).value = .ok release ∧
      ∀ result d', (ClassDirectory.write release.program r.output).Ends d result d' →
        r.run.Ends d (result.map fun _ => reportOf known release) d' := by
  obtain ⟨result, htable⟩ := PermissionTable.onlyReads_readFrom r.table d
  obtain ⟨result', hknown⟩ := r.onlyReads_loadLibraries d
  obtain ⟨result'', htarget⟩ := ClassDirectory.onlyReads_read r.input r.apiLevel d
  cases result with
  | error f => exact .inl ⟨f, htable.bind_error⟩
  | ok table =>
    cases result' with
    | error f => exact .inl ⟨f, htable.bind hknown.bind_error⟩
    | ok known =>
      cases result'' with
      | error f => exact .inl ⟨f, htable.bind (hknown.bind htarget.bind_error)⟩
      | ok target =>
        cases hbuild : (Release.build target known table r.removesVoid).value with
        | error f =>
          refine .inl ⟨f, htable.bind (hknown.bind (htarget.bind ((Run.ends_ofLogged _ d).bind ?_)))⟩
          rw [hbuild]
          exact (Run.ends_ofExcept (.error f) d).bind_error
        | ok release =>
          obtain ⟨programs, hprograms, hloads⟩ := exists_of_ends_loadLibraries hknown
          exact .inr ⟨table, programs, known, target, release,
            ⟨htable, hprograms, hloads, htarget⟩, hbuild,
            fun result d' hwrite => ends_run htable hknown htarget hbuild hwrite⟩

/-- A removal that has ended with a report has gathered what it needs, and has written the release
that is built of it. -/
theorem exists_of_ends_run {report : RemovalReport} (h : r.run.Ends d (.ok report) d') :
    ∃ table programs known target release, r.Gathers d table programs known target ∧
      (Release.build target known table r.removesVoid).value = .ok release ∧
      (ClassDirectory.write release.program r.output).Ends d (.ok ()) d' ∧
      report = reportOf known release := by
  obtain ⟨f, herror⟩ | ⟨table, programs, known, target, release, hgathers, hbuild, hends⟩ :=
    r.run_cases d
  · cases (h.unique herror).1
  · obtain ⟨result, d'', hwrite⟩ := ClassDirectory.isSettled_write release.program r.output d
    obtain ⟨hreport, rfl⟩ := h.unique (hends _ _ hwrite)
    cases result with
    | error f => cases hreport
    | ok a => exact ⟨table, programs, known, target, release, hgathers, hbuild, hwrite,
        Except.ok.inj hreport⟩

/-- A removal is all or nothing, and its report is true. Where it is refused it fails, and the disk
is exactly as it was. Where it ends with a report it has read everything that it needs; the report
has the counters of the resolution of the application by the redirections of all libraries, the
numbers of redirections and of classes that the libraries have brought, and that of the classes
written, which are these and those of the application. If the output is reached through directories
that are there, and each of these classes is read from its own text, has a name that can be followed
and, where the path of the output is padded, a file whose path is not too long, then reading the
output gives exactly the classes of the libraries and those of the resolved application, each
once. -/
theorem run_all_or_nothing (r : Removal) (d : Disk) :
    (r.Refused d → ∃ f, r.run.Ends d (.error f) d) ∧
    ∀ report d', r.run.Ends d (.ok report) d' →
      ∃ table programs known target, r.Gathers d table programs known target ∧
        let resolution := (Resolver.resolve
          ⟨table, (RedirectionTable.merge known).value, r.removesVoid⟩ target).value
        known.classes = programs.flatMap r.markers.offeredClasses ∧
        report = ⟨resolution.tally, known.classes.length + target.classes.length,
          known.classes.length, known.redirectionCount⟩ ∧
        (d.root.NamesDiffer → ClassDirectory.IsReached d r.output →
          (∀ c ∈ known.classes ++ resolution.program.classes, ClassDef.read c.print = .ok c ∧
            c.IsPlaceable ∧ (ClassDirectory.IsPadded r.output →
              Disk.checkPath (r.output.join c.fileNames) = .ok ())) →
          ∃ classes, (ClassDirectory.read r.output r.apiLevel).Ends d' (.ok ⟨classes, r.apiLevel⟩) d' ∧
            classes.Perm (known.classes ++ resolution.program.classes)) := by
  refine ⟨fun hrefused => ?_, fun report d' hrun => ?_⟩
  · obtain ⟨f, herror⟩ | ⟨table, programs, known, target, release, hgathers, hbuild, -⟩ :=
      r.run_cases d
    · exact ⟨f, herror⟩
    · exact absurd hrefused (hgathers.not_refused hbuild)
  · obtain ⟨table, programs, known, target, release, hgathers, hbuild, hwrite, rfl⟩ :=
      exists_of_ends_run hrun
    obtain ⟨-, hok⟩ | ⟨-, f, -, -, herror⟩ :=
      Release.build_cases target known table r.removesVoid
    · obtain rfl := Except.ok.inj (hok.symm.trans hbuild)
      have hlength := congrArg List.length
        (Resolver.names_resolve ⟨table, (RedirectionTable.merge known).value, r.removesVoid⟩ target)
      rw [Program.names, Program.names, List.length_map, List.length_map] at hlength
      refine ⟨table, programs, known, target, hgathers,
        by simpa [Replacements.empty] using Markers.classes_of_loadEach hgathers.loads, ?_, ?_⟩
      · rw [reportOf, Release.assembled, List.length_append, hlength]
      · intro hnames hreached hclasses
        exact ClassDirectory.exists_read_of_write hnames hreached (fun c hc => (hclasses c hc).2.1)
          (fun hpadded c hc => (hclasses c hc).2.2 hpadded) (fun c hc => (hclasses c hc).1) hwrite
          r.apiLevel
    · cases herror.symm.trans hbuild

end Removal

/-! ### A removal that ships its class, and one that ships another one too -/

namespace RemovalSample

open ClassDirectory (sampleClass read_print_sampleClass)

/-- The class of the application. -/
def main : ClassDef :=
  sampleClass "Main"

/-- A class that an earlier run has left behind in a staging directory. -/
def left : ClassDef :=
  sampleClass "Left"

/-- An application of one class, with an empty permission table. -/
def target : Program :=
  ⟨[main], 19⟩

/-- A disk with the table and the application, and more that stands beside them. -/
def diskWith (more : Disk.Entries) : Disk :=
  ⟨.directory (("table", .file "".toUTF8) ::
    ("app", .directory [("Main.smali", .file main.print.toUTF8)]) :: more), []⟩

/-- A removal of the application with the given output. -/
def removalTo (output : Path) : Removal :=
  ⟨⟨false, ["app"]⟩, output, ⟨false, ["table"]⟩, [], ∅, true, .standard, 19⟩

variable {more : Disk.Entries} {output : Path}

/-- The classes are read back. -/
theorem read_print_of_mem {c : ClassDef} (h : c ∈ [left, main]) :
    ClassDef.read c.print = .ok c := by
  simp only [List.mem_cons, List.not_mem_nil, or_false] at h
  obtain rfl | rfl := h
  · exact read_print_sampleClass (by decide)
  · exact read_print_sampleClass (by decide)

/-- The table is read. -/
theorem ends_readTable : (PermissionTable.readFrom ⟨false, ["table"]⟩).Ends (diskWith more)
    (.ok .empty) (diskWith more) := by
  have hcan : (diskWith more).CanFollow ⟨false, ["table"]⟩ := ⟨by decide, by decide, rfl⟩
  have hsegments : (⟨false, ["table"]⟩ : Path).segments = [] ++ ["table"] := rfl
  have htext : (diskWith more).readText ⟨false, ["table"]⟩ = .ok "" :=
    hcan.readText_eq hsegments (by decide) rfl
  have htable : PermissionTable.ofText "" = .ok .empty := rfl
  refine (Run.ends_reading htext _).bind ?_
  rw [htable]
  exact (Run.ends_ofExcept _ _).bind ((Run.ends_report _ _ _ _).bind (Run.ends_pure _ _))

/-- No library is needed. -/
theorem ends_loadLibraries :
    (removalTo output).loadLibraries.Ends (diskWith more) (.ok .empty) (diskWith more) :=
  (Run.ends_pure Replacements.empty _).bind ((Run.ends_report _ _ _ _).bind (Run.ends_pure _ _))

/-- The application has one class file, whatever that holds. -/
theorem classFiles_input (content : ByteArray) :
    (Disk.Node.directory [("Main.smali", .file content)]).classFiles =
      [main].map (·.fileNames) := by
  have hname : isClassFileName "Main.smali" = true := by decide
  have hfile : main.fileNames = ["Main.smali"] := by decide
  simp [Disk.Node.classFiles, Disk.Node.collect, Disk.Node.collectEntries, Disk.Node.joinByName,
    Disk.Node.isDirectory, hname, hfile]

/-- The application is read. -/
theorem ends_readInput : (ClassDirectory.read ⟨false, ["app"]⟩ 19).Ends (diskWith more)
    (.ok target) (diskWith more) := by
  have hcan : (diskWith more).CanFollow ⟨false, ["app"]⟩ := ⟨by decide, by decide, rfl⟩
  have hfile : (diskWith more).CanFollow ⟨false, ["app", "Main.smali"]⟩ :=
    ⟨by decide, by decide, rfl⟩
  have hsegments : (⟨false, ["app", "Main.smali"]⟩ : Path).segments = ["app"] ++ ["Main.smali"] := rfl
  have hmain : ∀ c ∈ [main], c = main := fun c hc => List.mem_singleton.mp hc
  exact ClassDirectory.ends_read_of_classFiles (hcan.isDirectory_eq_true rfl)
    (hcan.list_eq rfl) (by rw [Disk.Node.subdirectories_eq_nil (by decide)]; exact nofun)
    (classFiles_input _)
    (fun c hc => hmain c hc ▸ hfile.readText_eq hsegments (by decide) rfl)
    (fun c hc => hmain c hc ▸ read_print_of_mem (by simp)) 19

/-- The release is the application as it is. -/
theorem build_target :
    (Release.build target .empty .empty true).value = .ok ⟨target, ⟨0, 0, 0⟩⟩ := by
  obtain ⟨-, hok⟩ | ⟨c, f, htwice, -⟩ := Release.build_cases target .empty .empty true
  · exact hok
  · have hlength : (Release.allNames target .empty).length = 1 := rfl
    have hcount := (Release.allNames target .empty).count_le_length (a := c)
    omega

/-- The removal ends as writing the application ends. -/
theorem ends_run_removalTo {d' : Disk}
    (h : (ClassDirectory.write target output).Ends (diskWith more) (.ok ()) d') :
    (removalTo output).run.Ends (diskWith more) (.ok ⟨⟨0, 0, 0⟩, 1, 0, 0⟩) d' := by
  have htable : (PermissionTable.readFrom (removalTo output).table).Ends (diskWith more)
    (.ok .empty) (diskWith more) := ends_readTable
  exact Removal.ends_run htable ends_loadLibraries ends_readInput build_target h

/-- The application is all that the removal gathers. -/
theorem eq_of_gathers {table : PermissionTable} {programs : List Program} {known : Replacements}
    {target' : Program}
    (h : (removalTo output).Gathers (diskWith more) table programs known target') :
    table = .empty ∧ known = .empty ∧ target' = target := by
  obtain ⟨htable, hprograms, hloads, htarget⟩ := h
  refine ⟨Except.ok.inj (htable.unique ends_readTable).1, ?_,
    Except.ok.inj (htarget.unique ends_readInput).1⟩
  cases hprograms
  exact (Except.ok.inj hloads).symm

/-- Names in the directories of the disk differ. -/
theorem namesDiffer_diskWith_nil : (diskWith []).root.NamesDiffer := by
  have happ : (Disk.Node.directory [("Main.smali", .file main.print.toUTF8)]).NamesDiffer :=
    .directory _ (by decide) (List.forall_mem_singleton.mpr (.file _))
  exact .directory _ (by decide)
    (List.forall_mem_cons.mpr ⟨.file _, List.forall_mem_singleton.mpr happ⟩)

/-- Where nothing is left behind, the output holds the class of the application and no other one. -/
theorem run_all_or_nothing_main : ∃ d' classes,
    (removalTo ⟨false, ["out"]⟩).run.Ends (diskWith []) (.ok ⟨⟨0, 0, 0⟩, 1, 0, 0⟩) d' ∧
    (ClassDirectory.read ⟨false, ["out"]⟩ 19).Ends d' (.ok ⟨classes, 19⟩) d' ∧
    classes.Perm [main] := by
  have hstaging : ClassDirectory.staging? ⟨false, ["out"]⟩ = some ⟨false, [".out.partial"]⟩ := by
    decide
  have hvacant : ClassDirectory.IsVacant (diskWith []) ⟨false, ["out"]⟩ ⟨false, [".out.partial"]⟩ :=
    ⟨rfl, Disk.noFileTo_of_directory rfl, .inl rfl, fun content hfile => by cases hfile⟩
  obtain ⟨d', hwrite, -⟩ := ClassDirectory.exists_write (by decide) hstaging hvacant
    (p := target) ⟨by decide, by decide, by decide⟩ ⟨by decide, by decide⟩ (by decide)
  obtain ⟨-, hends⟩ := Removal.run_all_or_nothing (removalTo ⟨false, ["out"]⟩) (diskWith [])
  obtain ⟨table, programs, known, target', hgathers, -, -, hread⟩ :=
    hends _ d' (ends_run_removalTo hwrite)
  obtain ⟨rfl, rfl, rfl⟩ := eq_of_gathers hgathers
  have hreached : ClassDirectory.IsReached (diskWith []) ⟨false, ["out"]⟩ :=
    ClassDirectory.isReached_of_isPlain (by decide) (by decide) rfl
  obtain ⟨classes, hclasses, hperm⟩ := hread namesDiffer_diskWith_nil hreached fun c hc => by
    obtain rfl : c = main := List.mem_singleton.mp hc
    exact ⟨read_print_of_mem (by simp), by decide, fun _ =>
      Disk.Path.checkPath_eq_ok.mpr (by decide)⟩
  exact ⟨d', classes, ends_run_removalTo hwrite, hclasses, hperm⟩

/-! A path of the output that leads up again past a directory that is missing. -/

/-- An output beside the directories that are there, by way of one that is not. -/
def detour : Path :=
  ⟨false, ["new", "..", "out"]⟩

/-- Its staging directory. -/
def detourStaging : Path :=
  ⟨false, ["new", "..", ".out.partial"]⟩

/-- The disk on which a staging directory was left behind. -/
def leftBehind : Disk :=
  diskWith [(".out.partial", .directory [("Left.smali", .file left.print.toUTF8)])]

/-- The disk once the missing directory has been made. -/
def detourMade : Disk :=
  leftBehind.update [] (·.put "new" (.directory []))

/-- The disk once the class has been written to the staging directory. -/
def detourFilled : Disk :=
  detourMade.update [".out.partial"] (·.put "Main.smali" (.file main.print.toUTF8))

/-- What the staging directory holds then. -/
def detourEntries : Disk.Entries :=
  [("Left.smali", .file left.print.toUTF8), ("Main.smali", .file main.print.toUTF8)]

/-- The disk once the staging directory has been moved. -/
def detourPublished : Disk :=
  (detourFilled.update [] (·.erase ".out.partial")).update []
    (·.put "out" (.directory detourEntries))

/-- The paths of the detour are such that the file system takes. -/
theorem checkPath_detour : Disk.checkPath detour = .ok () ∧ Disk.checkPath detourStaging = .ok () ∧
    Disk.checkPath ⟨false, ["new", ".."]⟩ = .ok () ∧ Disk.checkPath ⟨false, ["new"]⟩ = .ok () ∧
    ∀ c ∈ [left, main], Disk.checkPath (detour.join c.fileNames) = .ok () ∧
      Disk.checkPath (detourStaging.join c.fileNames) = .ok () := by
  simp only [Disk.Path.checkPath_eq_ok]
  decide

/-- Neither the output nor the staging directory is found while the directory on the way is
missing. -/
theorem pathExists_leftBehind : leftBehind.pathExists detour = false ∧
    leftBehind.pathExists detourStaging = false := by
  obtain ⟨hdetour, hstaging, -⟩ := checkPath_detour
  constructor
  · rw [Disk.pathExists, Disk.node?, Disk.resolve, hdetour]
    rfl
  · rw [Disk.pathExists, Disk.node?, Disk.resolve, hstaging]
    rfl

/-- Once it is there, the staging directory is found as it was left behind, and so is the directory
to which the way leads up again. -/
theorem isDirectory_detourMade : detourMade.isDirectory detourStaging = true ∧
    detourMade.isDirectory ⟨false, ["new", ".."]⟩ = true := by
  obtain ⟨-, hstaging, hup, -⟩ := checkPath_detour
  constructor
  · rw [Disk.isDirectory, Disk.node?, Disk.resolve, hstaging]
    rfl
  · rw [Disk.isDirectory, Disk.node?, Disk.resolve, hup]
    rfl

/-- Making the staging directory makes the missing directory on the way, and takes over the staging
directory that was left behind. -/
theorem makeDirectories_detourStaging :
    leftBehind.makeDirectories detourStaging = (.ok (), detourMade) ∧
    detourMade.makeDirectories detourStaging = (.ok (), detourMade) := by
  obtain ⟨-, hstaging, hup, hnew, -⟩ := checkPath_detour
  obtain ⟨hthere, hthere'⟩ := isDirectory_detourMade
  have hmake : leftBehind.makeDirectory ⟨false, ["new"]⟩ = .ok detourMade := by
    rw [Disk.makeDirectory, Disk.target, hnew]
    rfl
  have hmissing : leftBehind.makeDirectory ⟨false, ["new", ".."]⟩ = .error .notFound := by
    rw [Disk.makeDirectory, Disk.target, hup]
    rfl
  have hmissing' : leftBehind.makeDirectory detourStaging = .error .notFound := by
    rw [Disk.makeDirectory, Disk.target, hstaging]
    rfl
  have hpresent : detourMade.makeDirectory ⟨false, ["new", ".."]⟩ = .error .alreadyExists := by
    rw [Disk.makeDirectory, Disk.target, hup]
    rfl
  have hpresent' : detourMade.makeDirectory detourStaging = .error .alreadyExists := by
    rw [Disk.makeDirectory, Disk.target, hstaging]
    rfl
  have hmakeUp : leftBehind.makeDirectories ⟨false, ["new", ".."]⟩ = (.ok (), detourMade) :=
    Disk.makeDirectories_of_parent (by decide) hmissing (by decide)
      (Disk.makeDirectories_of_ok (by decide) hmake) hpresent hthere'
  exact ⟨Disk.makeDirectories_of_parent (by decide) hmissing' (by decide) hmakeUp hpresent' hthere,
    Disk.makeDirectories_of_present (by decide) hpresent' (by simp) hthere⟩

/-- The application is written to the output by way of the staging directory that was left
behind. -/
theorem ends_write_detour :
    (ClassDirectory.write target detour).Ends leftBehind (.ok ()) detourPublished := by
  obtain ⟨hdetour, hstagingPath, -, -, hfiles⟩ := checkPath_detour
  obtain ⟨hvacant, hnone⟩ := pathExists_leftBehind
  obtain ⟨hmake, hmade⟩ := makeDirectories_detourStaging
  have hcheck := ClassDirectory.ends_checkVacant_of_missing hvacant
  have hprepare : (ClassDirectory.prepare detourStaging).Ends leftBehind (.ok ()) detourMade :=
    ClassDirectory.ends_cleared_of_missing hnone _ _ (Run.ends_makeDirectories hmake)
  have hput : detourMade.putFile (detourStaging.join main.fileNames) main.print.toUTF8 =
      .ok detourFilled := by
    rw [Disk.putFile, Disk.target, (hfiles main (by simp)).2]
    rfl
  have hfill : (ClassDirectory.writeClasses target detourStaging).Ends detourMade (.ok ())
      detourFilled :=
    ClassDirectory.ends_writeClasses_cons (ClassDef.ends_writeBelow hmade hput)
      (Run.ends_pure PUnit.unit _)
  have hpublish : (ClassDirectory.publish detourStaging detour).Ends detourFilled (.ok ())
      detourPublished := by
    have hgone : detourFilled.pathExists detour = false := by
      rw [Disk.pathExists, Disk.node?, Disk.resolve, hdetour]
      rfl
    have hmove : detourFilled.moveDirectory detourStaging detour = .ok detourPublished := by
      rw [Disk.moveDirectory, Disk.target, Disk.target, hstagingPath, hdetour]
      rfl
    exact ClassDirectory.ends_cleared_of_missing hgone _ _ (Run.ends_changing hmove _)
  exact ClassDirectory.ends_write (by decide) hcheck (by decide) hprepare hfill hpublish

/-- What was left behind is read with the class of the application. -/
theorem ends_read_detour : (ClassDirectory.read detour 19).Ends detourPublished
    (.ok ⟨[left, main], 19⟩) detourPublished := by
  obtain ⟨hdetour, -, -, -, hfiles⟩ := checkPath_detour
  have hdirectory : detourPublished.isDirectory detour = true := by
    rw [Disk.isDirectory, Disk.node?, Disk.resolve, hdetour]
    rfl
  have hlist : detourPublished.list detour = .ok detourEntries := by
    rw [Disk.list, Disk.resolve, hdetour]
    rfl
  have hclassFiles : (Disk.Node.directory detourEntries).classFiles =
      [left, main].map (·.fileNames) := by
    have hnames : isClassFileName "Left.smali" = true ∧ isClassFileName "Main.smali" = true := by
      decide
    simp only [detourEntries, Disk.Node.classFiles, Disk.Node.collect, Disk.Node.collectEntries,
      Disk.Node.isDirectory, Bool.not_false, Bool.true_and, hnames, if_true, Disk.Node.joinByName,
      List.map_nil, List.append_nil]
    rw [List.mergeSort_of_pairwise (by decide)]
    rfl
  have hopen : ∀ place ∈ (Disk.Node.directory detourEntries).subdirectories,
      Disk.checkPath (detour.join place) = .ok () := by
    rw [Disk.Node.subdirectories_eq_nil (by decide)]
    exact List.forall_mem_nil _
  have htexts : ∀ c ∈ [left, main],
      detourPublished.readText (detour.join c.fileNames) = .ok c.print := by
    intro c hc
    have hresolve : detourPublished.resolve (detour.join c.fileNames) =
        .ok ("out" :: c.fileNames) := by
      rw [Disk.resolve, (hfiles c hc).1]
      simp only [List.mem_cons, List.not_mem_nil, or_false] at hc
      obtain rfl | rfl := hc <;> rfl
    have hfile : detourPublished.root.find? ("out" :: c.fileNames) =
        some (.file c.print.toUTF8) := by
      simp only [List.mem_cons, List.not_mem_nil, or_false] at hc
      obtain rfl | rfl := hc <;> rfl
    exact Disk.readText_of_resolve hresolve hfile
  exact ClassDirectory.ends_read_of_classFiles hdirectory hlist hopen hclassFiles htexts
    (fun c hc => read_print_of_mem hc) 19

/-- The removal succeeds, but what is read of its output is not the application: a class is with it
that was left behind in the staging directory, although the class of the application is read back
and has a name that can be followed. -/
theorem run_ships_class_left_behind :
    (removalTo detour).Gathers leftBehind .empty [] .empty target ∧
    (Resolver.resolve ⟨.empty, (RedirectionTable.merge .empty).value, true⟩ target).value.program =
      target ∧
    (∀ c ∈ target.classes, ClassDef.read c.print = .ok c ∧ c.IsPlaceable) ∧
    ∃ d', (removalTo detour).run.Ends leftBehind (.ok ⟨⟨0, 0, 0⟩, 1, 0, 0⟩) d' ∧
      (ClassDirectory.read detour 19).Ends d' (.ok ⟨[left, main], 19⟩) d' ∧
      ¬[left, main].Perm target.classes := by
  refine ⟨⟨ends_readTable, .nil, rfl, ends_readInput⟩, rfl, fun c hc => ?_, detourPublished,
    ends_run_removalTo ends_write_detour, ends_read_detour, fun hperm => ?_⟩
  · obtain rfl : c = main := List.mem_singleton.mp hc
    exact ⟨read_print_of_mem (by simp), by decide⟩
  · cases hperm.length_eq

end RemovalSample

end GatedCalls
