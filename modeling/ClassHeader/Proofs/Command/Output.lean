import ClassHeader.Command.Run
import ClassHeader.Proofs.ClassPath.Basic
import ClassHeader.Proofs.Files.Places

/-!
# What failed commands leave behind

A command that fails has printed nothing and has changed no files but those of its index.
There is one exception: an inspection prints its listing before it compares the decoding.
Of the libraries that commands rest on only the database matters for this: it has to leave
all files alone but its own.
-/

namespace ClassHeader

-- ---------------------------------------------------------------------------
-- Places of an index
-- ---------------------------------------------------------------------------

namespace Index

/-- What a database appends to the name of its file for the files that it keeps beside it. -/
def endings : List Bytes := ["", "-journal", "-wal", "-shm"].map text

/-- The places that keeping an index at a path may change: directories that are made for it, its
file, and the files beside that. -/
def places (path : Bytes) : List (List Bytes) :=
  (if Path.directory path = Path.here then []
    else FileTree.directoryPlaces (Path.directory path)) ++
    if fileOf path = memory then []
    else endings.map fun ending => Path.parts (fileOf path ++ ending)

theorem fileOf_eq_memory_or_clean (path : Bytes) :
    fileOf path = memory ∨ ∃ name, fileOf path = Path.clean name :=
  (ite_eq_or_eq _ _ _).imp_right fun hname => ⟨_, hname⟩

theorem sameBut_store (x : Index) (t : FileTree) :
    FileTree.SameBut (places x.path) t (x.store t) := by
  unfold store
  split_ifs with hmemory
  · exact .refl _ t
  · obtain ⟨name, hname⟩ := (fileOf_eq_memory_or_clean x.path).resolve_left hmemory
    split
    · rename_i later hwrite
      rw [hname] at hwrite
      refine (FileTree.sameBut_write_clean hwrite).mono ?_
      rw [places, if_neg hmemory, hname, List.cons_subset]
      refine ⟨List.mem_append_right _ (List.mem_map.mpr ⟨[], by decide, ?_⟩), List.nil_subset _⟩
      rw [List.append_nil]
    · exact .refl _ t

theorem path_of_load {t : FileTree} {path : Bytes} {x : Index} (h : load t path = .ok x) :
    x.path = path := by
  unfold load at h
  dsimp only at h
  split_ifs at h
  · cases h
    rfl
  · split at h
    · cases h
      rfl
    · split at h
      · cases h
        rfl
      · cases h
    · cases h

theorem path_of_refresh {digest : Bytes → Bytes} {t : FileTree} {x y : Index} {s : Source}
    {changed : Bool} (h : x.refresh digest t s = .ok (y, changed)) : y.path = x.path := by
  unfold refresh at h
  simp only [Result.bind_ok_iff] at h
  obtain ⟨sum, -, -, -, h⟩ := h
  split_ifs at h
  · cases h
    rfl
  · simp only [Result.bind_ok_iff] at h
    obtain ⟨classes, -, h⟩ := h
    cases h
    rfl

end Index

/-- The database keeps an index under its path and changes only the places of that index. -/
structure Database.KeepsPlaces (database : Database) : Prop where
  path_load : ∀ {t path x}, (database.load t path).1 = .ok x → x.path = path
  files_load : ∀ t path, FileTree.SameBut (Index.places path) t (database.load t path).2
  files_store : ∀ x t, FileTree.SameBut (Index.places x.path) t (database.store x t)

theorem Database.records_keepsPlaces : records.KeepsPlaces where
  path_load := Index.path_of_load
  files_load _ _ := .refl _ _
  files_store := Index.sameBut_store

namespace ClassPath

theorem path_buildIndexOf (digest : Bytes → Bytes) (t : FileTree) (entries : List Bytes)
    (cp : ClassPath) :
    ((buildIndexOf digest t entries).run.run cp).2.index.map (·.path) = cp.index.map (·.path) := by
  induction entries generalizing cp with
  | nil => rfl
  | cons entry entries ih =>
    -- Opening an entry leaves the index, and a refresh keeps its path or fails.
    obtain ⟨opened, hsource, hlike⟩ := source_gives t entry cp
    rw [buildIndexOf, Result.run_bind, hsource, ← hlike.index]
    cases cp.opened t entry with
    | error e => rfl
    | ok s =>
      dsimp only
      rw [Result.run_bind, run_get]
      dsimp only
      cases hindex : opened.index with
      | none =>
        refine (ih opened).trans ?_
        rw [hindex]
      | some x =>
        dsimp only
        split_ifs with harchive
        · rw [Result.run_bind]
          cases hrefresh : x.refresh digest t s with
          | error e => exact congrArg (Option.map _) hindex
          | ok refreshed =>
            refine (ih _).trans ?_
            exact congrArg some (Index.path_of_refresh hrefresh)
        · refine (ih opened).trans ?_
          rw [hindex]

theorem path_buildIndex (digest : Bytes → Bytes) (t : FileTree) {cp : ClassPath} {x : Index}
    (h : cp.index = some x) :
    (((buildIndex digest t).run.run cp).2.index.getD x).path = x.path := by
  have hkept : ((buildIndex digest t).run.run cp).2.index.map (·.path) = some x.path := by
    simp only [buildIndex, Result.run_bind, run_get, h, Option.isNone_some]
    exact (path_buildIndexOf digest t cp.entries cp).trans (congrArg (Option.map _) h)
  obtain ⟨built, hbuilt, hpath⟩ := Option.map_eq_some_iff.mp hkept
  rw [hbuilt]
  exact hpath

end ClassPath

-- ---------------------------------------------------------------------------
-- Steps of commands
-- ---------------------------------------------------------------------------

namespace Command

/-- Nothing is printed, and only these places change. -/
structure Silent (places : List (List Bytes)) (w later : World) : Prop where
  stdout : later.stdout = w.stdout
  files : FileTree.SameBut places w.files later.files

variable {α β : Type} {places : List (List Bytes)} {w mid later : World}

theorem Silent.refl (places : List (List Bytes)) (w : World) : Silent places w w :=
  ⟨rfl, .refl places w.files⟩

theorem Silent.trans (h : Silent places w mid) (h' : Silent places mid later) :
    Silent places w later :=
  ⟨h'.stdout.trans h.stdout, h.files.trans h'.files⟩

def StaysSilent (places : List (List Bytes)) (step : CommandM α) : Prop :=
  ∀ w, Silent places w (step.run.run w).2

def FailsSilent (places : List (List Bytes)) (step : CommandM α) : Prop :=
  ∀ w e later, step.run.run w = (.error e, later) → Silent places w later

theorem StaysSilent.pure (a : α) : StaysSilent places (pure a) := fun w => .refl places w

theorem StaysSilent.throw (e : Error) : StaysSilent places (throw e : CommandM α) :=
  fun w => .refl places w

theorem run_ofResult (r : Result α) (w : World) : (ofResult r).run.run w = (r, w) :=
  Result.run_ofExcept r w

theorem run_files_bind (next : FileTree → CommandM α) (w : World) :
    (files >>= next).run.run w = (next w.files).run.run w := rfl

theorem failed_of_ofResult_bind {r : Result α} {next : α → CommandM β} {e : Error}
    (h : (ofResult r >>= next).run.run w = (.error e, later)) :
    r = .error e ∧ later = w ∨ ∃ a, r = .ok a ∧ (next a).run.run w = (.error e, later) := by
  rw [Result.run_bind, run_ofResult] at h
  cases r with
  | error e' =>
    cases h
    exact .inl ⟨rfl, rfl⟩
  | ok a => exact .inr ⟨a, rfl, h⟩

theorem run_print (s : Bytes) (w : World) :
    (print s).run.run w = (.ok (), { w with stdout := w.stdout ++ s }) := rfl

theorem StaysSilent.ofResult (r : Result α) : StaysSilent places (ofResult r) := fun w => by
  rw [run_ofResult]
  exact .refl places w

theorem StaysSilent.files : StaysSilent places files := fun w => .refl places w

theorem StaysSilent.modify {change : World → World} (h : ∀ w, Silent places w (change w)) :
    StaysSilent places (modify change : CommandM Unit) := h

theorem StaysSilent.bind_of_ok {step : CommandM α} {next : α → CommandM β}
    (hstep : StaysSilent places step)
    (hnext : ∀ w a mid, step.run.run w = (.ok a, mid) → StaysSilent places (next a)) :
    StaysSilent places (step >>= next) := by
  intro w
  have hfirst := hstep w
  rw [Result.run_bind]
  rcases hrun : step.run.run w with ⟨result, mid⟩
  rw [hrun] at hfirst
  cases result with
  | error e => exact hfirst
  | ok a => exact hfirst.trans (hnext w a mid hrun mid)

theorem StaysSilent.bind {step : CommandM α} {next : α → CommandM β}
    (hstep : StaysSilent places step) (hnext : ∀ a, StaysSilent places (next a)) :
    StaysSilent places (step >>= next) :=
  hstep.bind_of_ok fun _ a _ _ => hnext a

theorem StaysSilent.failsSilent {step : CommandM α} (h : StaysSilent places step) :
    FailsSilent places step := by
  intro w e later hrun
  have hlater := h w
  rwa [hrun] at hlater

/-- What is silent may come before the part that is silent only when it fails. -/
theorem FailsSilent.bind {step : CommandM α} {next : α → CommandM β}
    (hstep : StaysSilent places step) (hnext : ∀ a, FailsSilent places (next a)) :
    FailsSilent places (step >>= next) := by
  intro w e later hrun
  have hfirst := hstep w
  rw [Result.run_bind] at hrun
  rcases hmid : step.run.run w with ⟨result, mid⟩
  rw [hmid] at hrun hfirst
  cases result with
  | error e' =>
    cases hrun
    exact hfirst
  | ok a => exact hfirst.trans (hnext a mid e later hrun)

theorem FailsSilent.print (s : Bytes) : FailsSilent places (print s) := by
  rintro w e later ⟨⟩

theorem FailsSilent.modify (change : World → World) :
    FailsSilent places (modify change : CommandM Unit) := by
  rintro w e later ⟨⟩

-- ---------------------------------------------------------------------------
-- Class paths
-- ---------------------------------------------------------------------------

theorem makeIndexDirectory_staysSilent (path : Bytes) :
    StaysSilent (Index.places path) (makeIndexDirectory path) := by
  unfold makeIndexDirectory
  dsimp only
  split_ifs with hneeded
  · intro w
    rw [run_files_bind, Result.run_bind, run_ofResult]
    cases hmade : w.files.makeDirectories (Path.directory path) with
    | error failure => exact .refl _ w
    | ok t =>
      have hfiles := FileTree.sameBut_makeDirectories hmade
      refine ⟨rfl, hfiles.mono ?_⟩
      rw [Index.places, if_neg hneeded]
      exact List.subset_append_left _ _
  · exact .pure ()

def indexPlaces (config : Config) : List (List Bytes) :=
  if config.indexCache = [] then [] else Index.places config.indexCache

variable {around : Surroundings}

theorem run_loadIndex (around : Surroundings) (path : Bytes) (w : World) :
    (loadIndex around path).run.run w =
      ((around.database.load w.files path).1,
        { w with files := (around.database.load w.files path).2 }) :=
  run_ofResult _ _

theorem loadIndex_staysSilent (haround : around.database.KeepsPlaces) (path : Bytes) :
    StaysSilent (Index.places path) (loadIndex around path) := by
  intro w
  rw [run_loadIndex]
  exact ⟨rfl, haround.files_load w.files path⟩

theorem openClassPath_staysSilent (haround : around.database.KeepsPlaces) (config : Config) :
    StaysSilent (indexPlaces config) (openClassPath around config) := by
  unfold openClassPath indexPlaces
  dsimp only
  split_ifs with hnone
  · exact .pure _
  · refine .bind (makeIndexDirectory_staysSilent _) fun _ => ?_
    refine .bind_of_ok (loadIndex_staysSilent haround _) fun w x mid hload => ?_
    refine .bind .files fun built => ?_
    have hpath : x.path = config.indexCache := by
      rw [run_loadIndex] at hload
      exact haround.path_load (Prod.mk.inj hload).1
    let before : ClassPath := { entries := config.classPath, index := some x }
    have hindex : before.index = some x := rfl
    have hstored := ClassPath.path_buildIndex around.digest built hindex
    rw [hpath] at hstored
    refine .bind (.modify fun w => ⟨rfl, ?_⟩) fun _ => .bind (.ofResult _) fun _ => .pure _
    exact hstored ▸ haround.files_store _ w.files

theorem inSession_staysSilent (path : ClassPath)
    (action : Provider (StateM ClassPath) → SessionM (StateM ClassPath) α) :
    StaysSilent places (inSession path action) :=
  .bind .files fun _ => .ofResult _

theorem readClass_staysSilent (haround : around.database.KeepsPlaces) (config : Config)
    (arg : Bytes) :
    StaysSilent (indexPlaces config) (readClass around config arg) := by
  refine .bind .files fun t => ?_
  split
  · exact .pure _
  · refine .bind (openClassPath_staysSilent haround config) fun path => ?_
    refine .bind .files fun t' => .bind (.ofResult _) fun stream => ?_
    split
    · exact .throw _
    · exact .pure _

-- ---------------------------------------------------------------------------
-- Commands
-- ---------------------------------------------------------------------------

theorem compileTo_failsSilent (haround : around.database.KeepsPlaces) (config : Config)
    (main : Bytes) :
    FailsSilent (indexPlaces config) (compileTo around config main) := by
  refine .bind (.ofResult _) fun options => ?_
  refine .bind (openClassPath_staysSilent haround config) fun path => ?_
  refine .bind (inSession_staysSilent path _) fun done => ?_
  split_ifs
  · exact .print _
  · refine .bind .files fun t => .bind (.ofResult _) fun t' => ?_
    exact .modify _

theorem printGraph_failsSilent (haround : around.database.KeepsPlaces) (config : Config)
    (main : Bytes) :
    FailsSilent (indexPlaces config) (printGraph around config main) := by
  refine .bind (.ofResult _) fun options => ?_
  refine .bind (openClassPath_staysSilent haround config) fun path => ?_
  refine .bind (inSession_staysSilent path _) fun graph => ?_
  exact .print _

-- ---------------------------------------------------------------------------
-- Inspections
-- ---------------------------------------------------------------------------

structure Inspected where
  data : Bytes
  decoded : ClassFile
  resolved : ResolvedClass

/-- An inspection up to the point where it prints. -/
def inspected (around : Surroundings) (config : Config) (arg : Bytes) : CommandM Inspected := do
  let data ← readClass around config arg
  let c ← ofResult (ClassFile.decodeValid data)
  let options ← ofResult config.sessionOptions
  return ⟨data, c, ← ofResult (Resolver.resolve ⟨options.ignore⟩ c)⟩

theorem inspected_staysSilent (haround : around.database.KeepsPlaces) (config : Config)
    (arg : Bytes) :
    StaysSilent (indexPlaces config) (inspected around config arg) := by
  refine .bind (readClass_staysSilent haround config arg) fun data => ?_
  refine .bind (.ofResult _) fun c => .bind (.ofResult _) fun options => ?_
  exact .bind (.ofResult _) fun resolved => .pure _

theorem inspectClass_eq (around : Surroundings) (config : Config) (arg : Bytes)
    (crossCheck disassemble : Bool) :
    inspectClass around config arg crossCheck disassemble = (do
      let shown ← inspected around config arg
      print (shown.resolved.listing disassemble)
      if crossCheck then
        ofResult (CrossCheck.compare (around.reference shown.data) (some shown.decoded))
        print (text "cross-check: ok\n")) := by
  simp only [inspectClass, inspected, bind_assoc, pure_bind]

theorem listing_ne_nil (c : ResolvedClass) (disassemble : Bool) : c.listing disassemble ≠ [] := by
  have hnewline : text "\n" ≠ [] := by decide
  simp [ResolvedClass.listing, ResolvedClass.paintedListing, hnewline]

-- ---------------------------------------------------------------------------
-- Command lines
-- ---------------------------------------------------------------------------

/-- The inspection had printed its listing when its comparison failed. -/
def FailsComparing (around : Surroundings) (config : Config) (command : Command) (w : World)
    (e : Error) (later : World) : Prop :=
  ∃ target disassemble shown, command = .inspect target true disassemble ∧
    (inspected around config target).run.run w = (.ok shown, { later with stdout := w.stdout }) ∧
    CrossCheck.compare (around.reference shown.data) (some shown.decoded) = .error e ∧
    later.stdout = w.stdout ++ shown.resolved.listing disassemble

/-- The files of a failed command are those of before but for its index, and it has printed only if
it failed at a comparison. -/
def FailsClean (around : Surroundings) (config : Config) (command : Command) (w : World)
    (e : Error) (later : World) : Prop :=
  FileTree.SameBut (indexPlaces config) w.files later.files ∧
    (later.stdout ≠ w.stdout ↔ FailsComparing around config command w e later)

theorem FailsSilent.failsClean {config : Config} {command : Command}
    {step : CommandM Unit} {e : Error} (hstep : FailsSilent (indexPlaces config) step)
    (hcommand : ∀ target disassemble, command ≠ .inspect target true disassemble)
    (h : step.run.run w = (.error e, later)) : FailsClean around config command w e later := by
  have hsilent := hstep w e later h
  refine ⟨hsilent.files, fun hprinted => absurd hsilent.stdout hprinted, ?_⟩
  rintro ⟨target, disassemble, shown, hinspect, -⟩
  exact absurd hinspect (hcommand target disassemble)

theorem inspectClass_failsClean (haround : around.database.KeepsPlaces) {config : Config}
    {target : Bytes} {crossCheck disassemble : Bool} {e : Error}
    (h : (inspectClass around config target crossCheck disassemble).run.run w = (.error e, later)) :
    FailsClean around config (.inspect target crossCheck disassemble) w e later := by
  have hfirst := inspected_staysSilent haround config target w
  rw [inspectClass_eq, Result.run_bind] at h
  rcases hshown : (inspected around config target).run.run w with ⟨result, mid⟩
  rw [hshown] at h hfirst
  cases result with
  | error e' =>
    cases h
    refine ⟨hfirst.files, fun hprinted => absurd hfirst.stdout hprinted, ?_⟩
    rintro ⟨target', disassemble', shown, hcommand, hrun, -, -⟩
    cases hcommand
    cases hshown.symm.trans hrun
  | ok shown =>
    cases crossCheck with
    | false => cases h
    | true =>
      dsimp only at h
      -- Behind the listing only the comparison can fail.
      rw [if_pos rfl, Result.run_bind, run_print] at h
      obtain ⟨hcompare, rfl⟩ | ⟨u, -, h⟩ := failed_of_ofResult_bind h
      · refine ⟨hfirst.files, fun _ => ?_, fun _ => ?_⟩
        · refine ⟨target, disassemble, shown, rfl, ?_, hcompare, ?_⟩
          · rw [hshown, ← hfirst.stdout]
          · rw [← hfirst.stdout]
        · rw [← hfirst.stdout]
          simpa using listing_ne_nil shown.resolved disassemble
      · cases h

theorem runConfigured_failsClean (haround : around.database.KeepsPlaces) {config : Config}
    {command : Command} {e : Error}
    (h : (runConfigured around config command).run.run w = (.error e, later)) :
    FailsClean around config command w e later := by
  cases command with
  | compile main => exact (compileTo_failsSilent haround config main).failsClean nofun h
  | graph main => exact (printGraph_failsSilent haround config main).failsClean nofun h
  | inspect target crossCheck disassemble => exact inspectClass_failsClean haround h
  | explore main =>
    exact FailsSilent.failsClean (StaysSilent.throw _).failsSilent nofun h
  | configShow | configInit path replace | help page | usage page => cases h

/-- A failed command line changed nothing if it failed before its configuration was loaded. -/
theorem failed_run_leaves (haround : around.database.KeepsPlaces) {args : List Bytes} {e : Error}
    (h : (run around args).run.run w = (.error e, later)) :
    later = w ∨ ∃ call config, around.arguments args = .ok call ∧
      around.load w.files call = .ok config ∧ FailsClean around config call.command w e later := by
  obtain ⟨-, rfl⟩ | ⟨call, hcall, h⟩ := failed_of_ofResult_bind h
  · exact .inl rfl
  split at h
  · rw [run_files_bind] at h
    obtain ⟨-, rfl⟩ | ⟨t, -, h⟩ := failed_of_ofResult_bind h
    · exact .inl rfl
    · cases h
  · cases h
  · rw [run_files_bind] at h
    obtain ⟨-, rfl⟩ | ⟨config, hconfig, h⟩ := failed_of_ofResult_bind h
    · exact .inl rfl
    · exact .inr ⟨call, config, hcall, hconfig, runConfigured_failsClean haround h⟩

def shelved : World where
  files.nodes := [([text "out.hpp"], .file (.data (text "#pragma once")))]

def missing : List Bytes :=
  ["compile", "-o", "out.hpp", "--index-cache", "cache/index.db", "Missing"].map text

theorem failed_run_leaves_missing :
    ∃ e later, (run {} missing).run.run shelved = (.error e, later) ∧
      later.files.at? [text "cache"] = some .directory ∧
      ({} : Surroundings).database.KeepsPlaces ∧
      ∃ call config, Arguments.parse missing = .ok call ∧
        ({} : Surroundings).load shelved.files call = .ok config ∧
        FailsClean {} config call.command shelved e later := by
  have hfailed : ((run {} missing).run.run shelved).1.isOk = false := by decide +kernel
  have hcache : ((run {} missing).run.run shelved).2.files.at? [text "cache"] =
      some .directory := by decide +kernel
  rcases h : (run {} missing).run.run shelved with ⟨result, later⟩
  rw [h] at hfailed hcache
  cases result with
  | ok u => cases hfailed
  | error e =>
    refine ⟨e, later, rfl, hcache, Database.records_keepsPlaces, ?_⟩
    obtain rfl | hleft := failed_run_leaves Database.records_keepsPlaces h
    · exact absurd (hcache.symm.trans rfl) nofun
    · exact hleft

def bare : World where
  files.nodes := [([text "A.class"], .file (.data [
    0xca, 0xfe, 0xba, 0xbe, 0, 0, 0, 0x34, 0, 3, 1, 0, 1, 0x41, 7, 0, 1,
    0, 0x21, 0, 2, 0, 0, 0, 0, 0, 0, 0, 0, 0, 0]))]

def rejecting : Surroundings where
  reference _ := .error (.plain (text "unexpected EOF"))

def crossChecked : List Bytes := ["inspect", "A.class", "--cross-check"].map text

def overlaid : List Bytes :=
  ["compile", "-o", "out.hpp", "--index-cache", "out.hpp", "Missing"].map text

/-- A listing is printed although the comparison fails, and the output file is made although the
class is missing. -/
theorem failed_run_prints_and_writes :
    let inspection := (run rejecting crossChecked).run.run bare
    let compilation := (run {} overlaid).run.run {}
    inspection.1.isOk = false ∧ inspection.2.stdout ≠ bare.stdout ∧
      compilation.1.isOk = false ∧
      compilation.2.files.at? [text "out.hpp"] ≠ ({} : World).files.at? [text "out.hpp"] := by
  decide +kernel

end Command
end ClassHeader
