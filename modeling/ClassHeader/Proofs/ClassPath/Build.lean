import ClassHeader.Digest.Blake2b
import ClassHeader.Proofs.ClassPath.Basic
import ClassHeader.Proofs.Files.Tree

/-!
# Building indexes over changing files

An index outlives the files that it describes. Each build looks at the entries of
a class path one after another, as far as they can be opened, and records those
that are archives. So an index tells of each path the archive that was last seen
there (`indexAfter_describes`): what it says about the archives of the class path
is up to date after a build, but a path that has become a directory stays known.
-/

namespace ClassHeader

-- ---------------------------------------------------------------------------
-- Archives and their fingerprints
-- ---------------------------------------------------------------------------

namespace Source

variable {t : FileTree} {path other : Bytes} {entries : List ArchiveEntry}

/-- The entries of the archive that a class path opens at this path, if it is one. -/
def archiveAt? (t : FileTree) (path : Bytes) : Option (List ArchiveEntry) :=
  match ofPath t path with
  | .ok (.archive _ entries) => some entries
  | _ => none

theorem find_of_ofPath (h : ofPath t path = .ok (.archive other entries)) :
    other = path ∧ t.find path = .ok (.file (.archive entries)) := by
  unfold ofPath FileTree.stat at h
  cases hfind : t.find path with
  | error failure => simp [hfind, Except.mapError] at h
  | ok node =>
    rcases node with _ | bytes | entries'
    · simp [hfind, Except.mapError] at h
    · simp [hfind, Except.mapError, ofContent] at h
    · obtain ⟨rfl, rfl⟩ : path = other ∧ entries' = entries := by
        simpa [hfind, Except.mapError, ofContent] using h
      exact ⟨rfl, rfl⟩

theorem exists_classes_archive (t : FileTree) (path : Bytes) (entries : List ArchiveEntry) :
    ∃ classes, (archive path entries).classes t = .ok classes ∧
      ∀ name, name ∈ classes ↔ Holds entries name :=
  ⟨_, rfl, fun name => by simp [Holds]⟩

end Source

namespace Index

variable {t : FileTree} {x : Index} {path name : Bytes} {entries : List ArchiveEntry}
  {digest : Bytes → Bytes}

def fingerprintOf (digest : Bytes → Bytes) (content : FileContent) : Bytes :=
  Text.hexDump (digest content.bytes)

theorem fingerprint_of_find {content : FileContent} (h : t.find path = .ok (.file content)) :
    fingerprint digest t path = .ok (fingerprintOf digest content) := by
  simp only [fingerprint, FileTree.read, h]
  rfl

/-- Among these contents, those with the same fingerprint have the same bytes. -/
def CollisionFree (digest : Bytes → Bytes) (contents : List FileContent) : Prop :=
  ∀ a ∈ contents, ∀ b ∈ contents, fingerprintOf digest a = fingerprintOf digest b →
    a.bytes = b.bytes

instance (digest : Bytes → Bytes) (contents : List FileContent) :
    Decidable (CollisionFree digest contents) :=
  inferInstanceAs (Decidable (∀ a ∈ contents, ∀ b ∈ contents, _))

-- ---------------------------------------------------------------------------
-- Refreshing
-- ---------------------------------------------------------------------------

/-- The index tells of each path the archive that was seen there: all records of the path are made
for that archive. The archives seen are among the contents. -/
structure Describes (x : Index) (digest : Bytes → Bytes) (contents : List FileContent)
    (seen : Bytes → Option (List ArchiveEntry)) : Prop where
  isOpen : x.isOpen = true
  records : ∀ r ∈ x.records, ∃ entries, seen r.path = some entries ∧
    r.fingerprint = fingerprintOf digest (.archive entries) ∧
      ∀ name, name ∈ r.classes ↔ Source.Holds entries name
  recorded : ∀ path, (seen path).isSome → ∃ r ∈ x.records, r.path = path
  contents : ∀ path entries, seen path = some entries → .archive entries ∈ contents

variable {contents : List FileContent} {seen : Bytes → Option (List ArchiveEntry)}

theorem Describes.knows_iff (h : x.Describes digest contents seen) :
    x.Knows path ↔ (seen path).isSome := by
  rw [Index.knows_iff h.isOpen]
  constructor
  · rintro ⟨r, hr, rfl⟩
    obtain ⟨entries, hseen, -⟩ := h.records r hr
    simp [hseen]
  · exact h.recorded path

theorem Describes.mem_classes_iff (h : x.Describes digest contents seen) {r : IndexRecord}
    (hr : r ∈ x.records) (hseen : seen r.path = some entries) :
    name ∈ r.classes ↔ Source.Holds entries name := by
  obtain ⟨entries', hseen', -, hclasses⟩ := h.records r hr
  obtain rfl : entries' = entries := by simpa [hseen'] using hseen
  exact hclasses name

theorem Describes.records_iff (h : x.Describes digest contents seen)
    (hseen : seen path = some entries) :
    x.Records path name ↔ Source.Holds entries name := by
  rw [Index.records_iff h.isOpen]
  constructor
  · rintro ⟨r, hr, rfl, hname⟩
    exact (h.mem_classes_iff hr hseen).mp hname
  · intro hholds
    obtain ⟨r, hr, rfl⟩ := h.recorded path (by simp [hseen])
    exact ⟨r, hr, rfl, (h.mem_classes_iff hr hseen).mpr hholds⟩

theorem Describes.seen_of_fingerprint (hx : x.Describes digest contents seen)
    (hfree : CollisionFree digest contents) (hcontent : .archive entries ∈ contents)
    {r : IndexRecord} (hr : r ∈ x.records)
    (hprint : r.fingerprint = fingerprintOf digest (.archive entries)) :
    seen r.path = some entries := by
  obtain ⟨entries', hseen, hprint', -⟩ := hx.records r hr
  have hbytes : (FileContent.archive entries').bytes = (FileContent.archive entries).bytes :=
    hfree _ (hx.contents _ _ hseen) _ hcontent (hprint'.symm.trans hprint)
  rw [hseen, FileContent.archive_bytes_injective hbytes]

theorem Describes.replace (hx : x.Describes digest contents seen)
    (hcontent : .archive entries ∈ contents) {classes : List Bytes}
    (hclasses : ∀ name, name ∈ classes ↔ Source.Holds entries name) :
    Describes
      { x with records := x.records.filter (·.path ≠ path) ++
          [{ path, fingerprint := fingerprintOf digest (.archive entries), classes }] }
      digest contents (Function.update seen path (some entries)) := by
  refine ⟨hx.isOpen, ?_, ?_, ?_⟩
  · intro r hr
    rcases List.mem_append.mp hr with hold | hnew
    · obtain ⟨hr, hpath⟩ := List.mem_filter.mp hold
      rw [Function.update_of_ne (by simpa using hpath)]
      exact hx.records r hr
    · obtain rfl := List.mem_singleton.mp hnew
      exact ⟨entries, Function.update_self .., rfl, hclasses⟩
  · intro other hother
    by_cases hpath : other = path
    · exact ⟨_, List.mem_append_right _ List.mem_cons_self, hpath.symm⟩
    · rw [Function.update_of_ne hpath] at hother
      obtain ⟨r, hr, rfl⟩ := hx.recorded other hother
      exact ⟨r, List.mem_append_left _ (List.mem_filter.mpr ⟨hr, by simpa using hpath⟩), rfl⟩
  · intro other entries' hother
    by_cases hpath : other = path
    · subst hpath
      obtain rfl : entries = entries' := by simpa using hother
      exact hcontent
    · rw [Function.update_of_ne hpath] at hother
      exact hx.contents other entries' hother

theorem Describes.refresh (hx : x.Describes digest contents seen)
    (hfree : CollisionFree digest contents) (ht : t.contents ⊆ contents)
    (hfind : t.find path = .ok (.file (.archive entries))) :
    ∃ y changed, x.refresh digest t (.archive path entries) = .ok (y, changed) ∧
      y.Describes digest contents (Function.update seen path (some entries)) := by
  have hcontent : .archive entries ∈ contents := ht (FileTree.mem_contents_of_find hfind)
  have hopen : x.ensureOpen "query archive" = .ok () := by simp [ensureOpen, hx.isOpen]
  have hsum : fingerprint digest t (Source.archive path entries).path =
      .ok (fingerprintOf digest (.archive entries)) := fingerprint_of_find hfind
  simp only [Index.refresh, hsum, hopen, Result.ok_bind]
  split_ifs with hkept
  · -- The record is kept, so it has to be the one that would be made now.
    refine ⟨x, false, rfl, ?_⟩
    obtain ⟨r, hr, hprint⟩ : ∃ r, x.record? path = some r ∧
        r.fingerprint = fingerprintOf digest (.archive entries) := by
      simpa [Source.path, Option.any_eq_true] using hkept
    obtain rfl : r.path = path := by simpa using List.find?_some hr
    have hseen := hx.seen_of_fingerprint hfree hcontent (List.mem_of_find?_eq_some hr) hprint
    rwa [Function.update_eq_self_iff.mpr hseen.symm]
  · obtain ⟨classes, hclasses, hholds⟩ := Source.exists_classes_archive t path entries
    simp only [hclasses, Result.ok_bind]
    exact ⟨_, true, rfl, hx.replace hcontent hholds⟩

end Index

-- ---------------------------------------------------------------------------
-- Builds
-- ---------------------------------------------------------------------------

namespace ClassPath

variable {t : FileTree} {cp : ClassPath} {x : Index} {entry path : Bytes} {entries : List Bytes}
  {digest : Bytes → Bytes}

def opens (t : FileTree) (entry : Bytes) : Bool := (Source.ofPath t entry).isOk

theorem opens_of_ok {s : Source} (h : Source.ofPath t entry = .ok s) : opens t entry = true := by
  rw [opens, h]
  rfl

theorem opens_of_error {e : Error} (h : Source.ofPath t entry = .error e) :
    opens t entry = false := by
  rw [opens, h]
  rfl

/-- The archive that a build over these entries records for a path. The build ends at the first
entry that does not open. -/
def seenAt? (t : FileTree) (entries : List Bytes) (path : Bytes) : Option (List ArchiveEntry) :=
  if path ∈ entries.takeWhile (opens t) then Source.archiveAt? t path else none

theorem seenAt?_of_opens (h : ∀ entry ∈ entries, opens t entry) (hpath : path ∈ entries) :
    seenAt? t entries path = Source.archiveAt? t path := by
  rw [seenAt?, List.takeWhile_eq_self_iff.mpr h, if_pos hpath]

theorem seenAt?_of_error {e : Error} (h : Source.ofPath t entry = .error e) :
    seenAt? t (entry :: entries) path = none := by
  simp [seenAt?, opens_of_error h]

theorem seenAt?_of_directory {root : Bytes} (h : Source.ofPath t entry = .ok (.directory root)) :
    seenAt? t (entry :: entries) path = seenAt? t entries path := by
  have hnone : Source.archiveAt? t entry = none := by simp [Source.archiveAt?, h]
  simp only [seenAt?, List.takeWhile_cons_of_pos (opens_of_ok h), List.mem_cons]
  grind

theorem seenAt?_of_archive {archive : List ArchiveEntry}
    (h : Source.ofPath t entry = .ok (.archive path archive))
    (seen : Bytes → Option (List ArchiveEntry)) (other : Bytes) :
    (seenAt? t (entry :: entries) other).or (seen other) =
      (seenAt? t entries other).or (Function.update seen entry (some archive) other) := by
  have hsome : Source.archiveAt? t entry = some archive := by simp [Source.archiveAt?, h]
  simp only [seenAt?, List.takeWhile_cons_of_pos (opens_of_ok h), List.mem_cons,
    Function.update_apply]
  grind

variable {contents : List FileContent} {seen : Bytes → Option (List ArchiveEntry)}

/-- A build succeeds if all entries open, and brings the index up to date with the archives up to
the first entry that does not. -/
theorem buildIndexOf_describes (hfree : Index.CollisionFree digest contents)
    (ht : t.contents ⊆ contents)
    (hopened : cp.opened t = Source.ofPath t) (hindex : cp.index = some x)
    (hx : x.Describes digest contents seen) :
    ∃ result later y, (buildIndexOf digest t entries).run.run cp = (result, later) ∧
      (result = .ok () ↔ ∀ entry ∈ entries, opens t entry) ∧ later.index = some y ∧
      y.Describes digest contents fun path => (seenAt? t entries path).or (seen path) := by
  induction entries generalizing cp x seen with
  | nil => exact ⟨.ok (), cp, x, rfl, by simp, hindex, by simpa [seenAt?] using hx⟩
  | cons entry rest ih =>
    obtain ⟨later, hrun, hlike⟩ := source_gives t entry cp
    rw [hopened] at hrun
    have hopened' : later.opened t = Source.ofPath t := hlike.opened.trans hopened
    have hindex' : later.index = some x := hlike.index.trans hindex
    unfold buildIndexOf
    rw [Result.run_bind, hrun]
    cases hs : Source.ofPath t entry with
    | error e =>
      refine ⟨.error e, later, x, rfl, ?_, hindex', ?_⟩
      · simp [opens_of_error hs]
      · simpa [seenAt?_of_error hs] using hx
    | ok s =>
      cases s with
      | directory root =>
        obtain ⟨result, last, y, hrest, hok, hlast, hy⟩ := ih hopened' hindex' hx
        refine ⟨result, last, y, ?_, ?_, hlast, ?_⟩
        · simp only [Result.run_bind, run_get, hindex']
          exact hrest
        · simpa [opens_of_ok hs] using hok
        · simpa only [seenAt?_of_directory hs] using hy
      | archive path archive =>
        obtain ⟨rfl, hfind⟩ := Source.find_of_ofPath hs
        obtain ⟨x', changed, hrefresh, hx'⟩ := hx.refresh hfree ht hfind
        have hopened'' : opened t { later with index := some x' } = Source.ofPath t := hopened'
        obtain ⟨result, last, y, hrest, hok, hlast, hy⟩ := ih hopened'' rfl hx'
        refine ⟨result, last, y, ?_, ?_, hlast, ?_⟩
        · simp only [Result.run_bind, run_get, hindex', hrefresh]
          exact hrest
        · simpa [opens_of_ok hs] using hok
        · simpa only [seenAt?_of_archive hs seen] using hy

end ClassPath

-- ---------------------------------------------------------------------------
-- Histories
-- ---------------------------------------------------------------------------

/-- The files as they are when an index is built, and the entries of the class path it is built
for. -/
structure IndexRun where
  tree : FileTree
  entries : List Bytes

namespace IndexRun

def classPath (run : IndexRun) (x : Index) : ClassPath where
  entries := run.entries
  index := some x

def build (digest : Bytes → Bytes) (run : IndexRun) (x : Index) : Result Unit × Index :=
  let (result, cp) := (ClassPath.buildIndex digest run.tree).run.run (run.classPath x)
  (result, cp.index.getD x)

/-- The index after runs that share it; it starts empty. -/
def indexAfter (digest : Bytes → Bytes) (path : Bytes) (runs : List IndexRun) : Index :=
  runs.foldl (fun x run => (run.build digest x).2) { path }

def contents (runs : List IndexRun) : List FileContent := runs.flatMap (·.tree.contents)

def seen? (run : IndexRun) (path : Bytes) : Option (List ArchiveEntry) :=
  ClassPath.seenAt? run.tree run.entries path

def lastSeen? (runs : List IndexRun) (path : Bytes) : Option (List ArchiveEntry) :=
  runs.reverse.findSome? (·.seen? path)

variable {run : IndexRun} {runs earlier : List IndexRun} {x : Index} {path entry : Bytes}
  {files : List FileContent} {digest : Bytes → Bytes}

theorem build_describes {seen : Bytes → Option (List ArchiveEntry)}
    (hfree : Index.CollisionFree digest files) (hfiles : run.tree.contents ⊆ files)
    (hx : x.Describes digest files seen) :
    ((run.build digest x).1 = .ok () ↔ ∀ entry ∈ run.entries, ClassPath.opens run.tree entry) ∧
      (run.build digest x).2.Describes digest files fun path =>
        (run.seen? path).or (seen path) := by
  have hopened : (run.classPath x).opened run.tree = Source.ofPath run.tree := rfl
  obtain ⟨result, later, y, hbuild, hok, hlater, hy⟩ :=
    ClassPath.buildIndexOf_describes hfree hfiles hopened rfl hx
  have hrun :
      (ClassPath.buildIndex digest run.tree).run.run (run.classPath x) = (result, later) := by
    simp only [ClassPath.buildIndex, Result.run_bind, ClassPath.run_get]
    exact hbuild
  simp only [build, hrun, hlater]
  exact ⟨hok, hy⟩

theorem lastSeen?_append (earlier : List IndexRun) (run : IndexRun) (path : Bytes) :
    lastSeen? (earlier ++ [run]) path = (run.seen? path).or (lastSeen? earlier path) := by
  cases h : run.seen? path <;> simp [lastSeen?, h]

theorem isSome_lastSeen? :
    (lastSeen? runs path).isSome ↔ ∃ run ∈ runs, (run.seen? path).isSome := by
  simp [lastSeen?, List.findSome?_isSome_iff]

/-- After any runs, whether they succeeded or not, an index tells of each path the archive that
was last seen there. -/
theorem indexAfter_describes (path : Bytes) (hfree : Index.CollisionFree digest files)
    (hfiles : contents runs ⊆ files) :
    (indexAfter digest path runs).Describes digest files (lastSeen? runs) := by
  induction runs using List.reverseRecOn with
  | nil => exact ⟨rfl, by simp [indexAfter], by simp [lastSeen?], by simp [lastSeen?]⟩
  | append_singleton earlier run ih =>
    have hsplit : contents (earlier ++ [run]) = contents earlier ++ run.tree.contents := by
      simp [contents]
    rw [hsplit, List.append_subset] at hfiles
    obtain ⟨-, hbuilt⟩ := build_describes hfree hfiles.2 (ih hfiles.1)
    rw [funext (lastSeen?_append earlier run)]
    simpa [indexAfter] using hbuilt

theorem build_ok_iff (path : Bytes)
    (hfree : Index.CollisionFree digest (contents (earlier ++ [run]))) :
    (run.build digest (indexAfter digest path earlier)).1 = .ok () ↔
      ∀ entry ∈ run.entries, ClassPath.opens run.tree entry := by
  have hearlier : (indexAfter digest path earlier).Describes digest _ (lastSeen? earlier) :=
    indexAfter_describes path hfree (by simp [contents])
  exact (build_describes hfree (by simp [contents]) hearlier).1

/-- After a build that succeeds the index knows the entries that are archives and those that were
archives when an earlier run came by, and what it records for the archives are their classes. -/
theorem knows_and_records_of_build_ok
    (hfree : Index.CollisionFree digest (contents (earlier ++ [run])))
    (hok : (run.build digest (indexAfter digest path earlier)).1 = .ok ())
    (hentry : entry ∈ run.entries) :
    ((indexAfter digest path (earlier ++ [run])).Knows entry ↔
        (Source.archiveAt? run.tree entry).isSome ∨ ∃ old ∈ earlier, (old.seen? entry).isSome) ∧
      ∀ entries, Source.archiveAt? run.tree entry = some entries →
        ∀ name, (indexAfter digest path (earlier ++ [run])).Records entry name ↔
          Source.Holds entries name := by
  have hindex := indexAfter_describes path hfree (List.Subset.refl _)
  have hseen : run.seen? entry = Source.archiveAt? run.tree entry :=
    ClassPath.seenAt?_of_opens ((build_ok_iff path hfree).mp hok) hentry
  have hlast := lastSeen?_append earlier run entry
  rw [hseen] at hlast
  constructor
  · rw [hindex.knows_iff, hlast, Option.isSome_or, Bool.or_eq_true, isSome_lastSeen?]
  · intro entries hentries name
    exact hindex.records_iff (by simp [hlast, hentries])

def packed : IndexRun where
  tree.nodes := [
    ([text "lib"], .file (.archive [⟨text "B.class", [1]⟩])),
    ([text "a.jar"], .file (.archive [⟨text "A.class", [2]⟩]))]
  entries := [text "lib", text "a.jar"]

def repacked : IndexRun where
  tree.nodes := [
    ([text "lib"], .file (.archive [⟨text "A.class", [3]⟩])),
    ([text "a.jar"], .file (.archive [⟨text "A.class", [2]⟩]))]
  entries := packed.entries

def unpacked : IndexRun where
  tree.nodes := [
    ([text "lib"], .directory),
    ([text "lib", text "A.class"], .file (.data [3])),
    ([text "a.jar"], .file (.archive [⟨text "A.class", [2]⟩]))]
  entries := packed.entries

theorem knows_and_records_of_build_ok_repacked :
    Index.CollisionFree Blake2b.digest (contents [packed, repacked]) ∧
      (repacked.build Blake2b.digest (indexAfter Blake2b.digest Index.memory [packed])).1 = .ok () ∧
      ∀ name,
        (indexAfter Blake2b.digest Index.memory [packed, repacked]).Records (text "lib") name ↔
          Source.Holds [⟨text "A.class", [3]⟩] name := by
  have hfree : Index.CollisionFree Blake2b.digest (contents [packed, repacked]) := by decide +kernel
  have hok :
      (repacked.build Blake2b.digest (indexAfter Blake2b.digest Index.memory [packed])).1 =
        .ok () :=
    (build_ok_iff Index.memory hfree).mpr (by decide)
  have hlib : text "lib" ∈ repacked.entries := by decide
  have harchive : Source.archiveAt? repacked.tree (text "lib") = some [⟨text "A.class", [3]⟩] := by
    decide
  exact ⟨hfree, hok, (knows_and_records_of_build_ok hfree hok hlib).2 _ harchive⟩

/-- The directory stays known as an archive without the class, so that the class is taken from the
entry behind it. -/
theorem index_knows_unpacked_archive :
    Index.CollisionFree Blake2b.digest (contents [packed, unpacked]) ∧
      (unpacked.build Blake2b.digest (indexAfter Blake2b.digest Index.memory [packed])).1 = .ok () ∧
      text "lib" ∈ unpacked.entries ∧
      Source.archiveAt? unpacked.tree (text "lib") = none ∧
      (indexAfter Blake2b.digest Index.memory [packed, unpacked]).Knows (text "lib") ∧
      let cp := unpacked.classPath (indexAfter Blake2b.digest Index.memory [packed, unpacked])
      let fetched := fun cp => ((ClassPath.fetch unpacked.tree (text "A")).run.run cp).1
      (fetched cp).toOption.map (·.data) = some [2] ∧
        (fetched { cp with index := none }).toOption.map (·.data) = some [3] := by
  decide +kernel

end IndexRun
end ClassHeader
