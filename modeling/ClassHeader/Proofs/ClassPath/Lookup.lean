import ClassHeader.Proofs.ClassPath.Basic

/-!
# Looking classes up with an index

Without an index a class comes from the first entry that has it. With one, the
entries in front of the first recorded holder are passed over without opening
them, and wherever the index does not settle the matter the entries are scanned
after all. `fetch_gives`: for an index that tells the truth about the entries of
the class path, both ways lead to the same entry.
-/

namespace ClassHeader

/-- What an open index knows about entries of the class path is true: they are archives, and their
classes are those that are recorded. Nothing is asked of other paths, and an entry may be
unknown. -/
structure Index.Sound (x : Index) (t : FileTree) (cp : ClassPath) : Prop where
  isOpen : x.isOpen = true
  archives : ∀ entry ∈ cp.entries, x.Knows entry → ∃ path entries,
    cp.opened t entry = .ok (.archive path entries) ∧
      ∀ name, x.Records entry name ↔ Source.Holds entries name

namespace ClassPath

variable {t : FileTree} {cp : ClassPath} {x : Index} {name : Bytes}

-- ---------------------------------------------------------------------------
-- Scanning
-- ---------------------------------------------------------------------------

def firstIn (t : FileTree) (opened : Bytes → Result Source) (name : Bytes) :
    List Bytes → Result ClassStream
  | [] => throw (Source.notFound name)
  | entry :: rest => do
    let s ← opened entry
    match s.fetch t name with
    | .ok stream => return stream
    | .error e => if isNotFound e then firstIn t opened name rest else throw e

theorem scan_gives (t : FileTree) (name : Bytes) (entries : List Bytes) (cp : ClassPath) :
    Gives t (scan t name entries) cp (firstIn t (cp.opened t) name entries) := by
  induction entries generalizing cp with
  | nil => exact .throw _
  | cons entry rest ih =>
    refine .bind (source_gives t entry cp) fun s later hlike => ?_
    cases s.fetch t name with
    | ok stream => exact .pure _
    | error e =>
      dsimp only
      split_ifs
      · rw [← hlike.opened]
        exact ih later
      · exact .throw _

theorem firstIn_of_holds {entry path : Bytes} {rest : List Bytes} {entries : List ArchiveEntry}
    (hopened : cp.opened t entry = .ok (.archive path entries)) (h : Source.Holds entries name) :
    firstIn t (cp.opened t) name (entry :: rest) = (Source.archive path entries).fetch t name := by
  obtain ⟨stream, hstream⟩ := Source.fetch_of_holds t path h
  simp only [firstIn, hopened, Result.ok_bind, hstream]
  rfl

theorem firstIn_of_not_holds {entry path : Bytes} {rest : List Bytes}
    {entries : List ArchiveEntry} (hopened : cp.opened t entry = .ok (.archive path entries))
    (h : ¬Source.Holds entries name) :
    firstIn t (cp.opened t) name (entry :: rest) = firstIn t (cp.opened t) name rest := by
  simp only [firstIn, hopened, Result.ok_bind, Source.fetch_of_not_holds h,
    Source.isNotFound_notFound, if_true]

-- ---------------------------------------------------------------------------
-- Scanning with an index
-- ---------------------------------------------------------------------------

/-- With the index either the same class is found as without it, or nothing is said. -/
theorem scanIndexed_gives (hx : x.Sound t cp) {holders : List Bytes}
    (hholders : x.archivesOf name = .ok holders) {entries : List Bytes}
    (hentries : ∀ entry ∈ entries, entry ∈ cp.entries) :
    ∃ result, Gives t (scanIndexed t x name holders entries) cp result ∧
      (result = firstIn t (cp.opened t) name entries ∨
        result = .error (Source.notFound name)) := by
  induction entries with
  | nil => exact ⟨_, .throw _, .inr rfl⟩
  | cons entry rest ih =>
    have hmem : entry ∈ cp.entries := hentries entry List.mem_cons_self
    have hrecords : x.Records entry name ↔ entry ∈ holders := by
      simp [Index.Records, hholders]
    unfold scanIndexed
    by_cases hheld : entry ∈ holders
    · obtain ⟨path, archive, hopened, hsame⟩ :=
        hx.archives entry hmem ((hrecords.mpr hheld).knows hx.isOpen)
      have hholds : Source.Holds archive name := (hsame name).mp (hrecords.mpr hheld)
      rw [if_pos hheld]
      refine ⟨_, .bind (source_gives t entry cp) fun s later _ => .ofExcept _, .inl ?_⟩
      rw [hopened, Result.ok_bind, firstIn_of_holds hopened hholds]
    · rw [if_neg hheld, Index.knows_of_isOpen hx.isOpen]
      cases hknown : (x.record? entry).isSome with
      | false => exact ⟨_, .throw _, .inr rfl⟩
      | true =>
        have hknows : x.Knows entry := by rw [Index.Knows, Index.knows_of_isOpen hx.isOpen, hknown]
        obtain ⟨path, archive, hopened, hsame⟩ := hx.archives entry hmem hknows
        have hholds : ¬Source.Holds archive name := by rwa [← hsame name, hrecords]
        rw [firstIn_of_not_holds hopened hholds]
        exact ih fun other hother => hentries other (List.mem_cons_of_mem _ hother)

theorem fetchIndexed_gives (hx : x.Sound t cp) (name : Bytes) :
    ∃ result, Gives t (fetchIndexed t x name) cp result ∧
      (result = firstIn t (cp.opened t) name cp.entries ∨
        result = .error (Source.notFound name)) := by
  obtain ⟨holders, hholders⟩ : ∃ holders, x.archivesOf name = .ok holders :=
    ⟨_, Index.archivesOf_of_isOpen hx.isOpen name⟩
  obtain ⟨result, ⟨later, hrun, hlike⟩, hresult⟩ := scanIndexed_gives hx hholders fun _ h => h
  cases holders with
  | nil => exact ⟨_, ⟨cp, by simp only [fetchIndexed, hholders]; rfl, .refl cp⟩, .inr rfl⟩
  | cons first others =>
    exact ⟨result, ⟨later, by simp only [fetchIndexed, hholders]; exact hrun, hlike⟩, hresult⟩

theorem run_fetch (t : FileTree) (name : Bytes) (cp : ClassPath) :
    (fetch t name).run.run cp =
      match cp.index with
      | none => (scan t name cp.entries).run.run cp
      | some x =>
        match (fetchIndexed t x name).run.run cp with
        | (.ok stream, later) => (.ok stream, later)
        | (.error e, later) =>
          if isNotFound e then (scan t name later.entries).run.run later
          else (.error e, later) := by
  unfold fetch
  simp only [Result.run_bind, run_get]
  cases cp.index with
  | none => rfl
  | some x =>
    simp only [Result.run_bind, run_tryCatch]
    rcases (fetchIndexed t x name).run.run cp with ⟨result, later⟩
    cases result with
    | ok stream => rfl
    | error e =>
      cases he : isNotFound e with
      | true => simp only [he]; rfl
      | false => simp only [he]; rfl

-- ---------------------------------------------------------------------------
-- Opening a class
-- ---------------------------------------------------------------------------

theorem fetch_gives (t : FileTree) (name : Bytes) (cp : ClassPath)
    (hx : ∀ x ∈ cp.index, x.Sound t cp) :
    Gives t (fetch t name) cp (firstIn t (cp.opened t) name cp.entries) := by
  cases hindex : cp.index with
  | none =>
    obtain ⟨later, hrun, hlike⟩ := scan_gives t name cp.entries cp
    exact ⟨later, by rw [run_fetch, hindex]; exact hrun, hlike⟩
  | some x =>
    obtain ⟨result, ⟨later, hrun, hlike⟩, hresult⟩ := fetchIndexed_gives (hx x hindex) name
    have hfetch := run_fetch t name cp
    simp only [hindex, hrun] at hfetch
    cases result with
    | ok stream =>
      rcases hresult with hfirst | hnone
      · exact ⟨later, by rw [hfetch, ← hfirst], hlike⟩
      · cases hnone
    | error e =>
      by_cases he : isNotFound e = true
      · -- The index did not settle the matter: all entries are scanned, opened as before.
        obtain ⟨last, hscan, hlike'⟩ := scan_gives t name later.entries later
        simp only [he, if_true, hscan] at hfetch
        exact ⟨last, by rw [hfetch, hlike.opened, hlike.entries], hlike.trans hlike'⟩
      · rcases hresult with hfirst | hnone
        · simp only [he] at hfetch
          exact ⟨later, by rw [hfetch, ← hfirst]; rfl, hlike⟩
        · cases hnone
          exact absurd (Source.isNotFound_notFound name) he

/-- With a sound index attached a class path opens every class as without an index: the same
stream or the same error. -/
theorem fetch_with_index_eq_without (hindex : cp.index = some x) (hx : x.Sound t cp)
    (name : Bytes) :
    ((fetch t name).run.run cp).1 = ((fetch t name).run.run { cp with index := none }).1 := by
  obtain ⟨later, hwith, -⟩ := fetch_gives t name cp (by simpa [hindex] using hx)
  obtain ⟨last, hwithout, -⟩ := fetch_gives t name { cp with index := none } (by simp)
  rw [hwith, hwithout]
  rfl

def shadowing : FileTree where
  nodes := [
    ([text "d"], .directory),
    ([text "d", text "A.class"], .file (.data [1])),
    ([text "a.jar"], .file (.archive [⟨text "A.class", [2]⟩, ⟨text "B.class", [3]⟩])),
    ([text "b.jar"], .file (.archive [⟨text "B.class", [4]⟩]))]

def partialIndex : Index where
  path := Index.memory
  records := [⟨text "old.jar", [], [text "A"]⟩, ⟨text "a.jar", [], [text "A", text "B"]⟩]

def shadowed : ClassPath where
  entries := [text "d", text "a.jar", text "b.jar"]
  index := some partialIndex

theorem partialIndex_sound : partialIndex.Sound shadowing shadowed := by
  refine ⟨rfl, fun entry hentry hknows => ?_⟩
  have hpath : entry = text "a.jar" := by
    obtain ⟨r, hr, rfl⟩ := (Index.knows_iff rfl).mp hknows
    have hall : ∀ r ∈ partialIndex.records, r.path ∈ shadowed.entries → r.path = text "a.jar" := by
      decide
    exact hall r hr hentry
  subst hpath
  refine ⟨text "a.jar", [⟨text "A.class", [2]⟩, ⟨text "B.class", [3]⟩], by decide, fun name => ?_⟩
  have hA : Source.className? (text "A.class") = some (text "A") := by decide
  have hB : Source.className? (text "B.class") = some (text "B") := by decide
  have hold : text "old.jar" ≠ text "a.jar" := by decide
  simp [Index.records_iff, partialIndex, Source.Holds, hA, hB, hold, eq_comm]

theorem fetch_with_index_eq_without_shadowed :
    partialIndex.Sound shadowing shadowed ∧
      ((fetch shadowing (text "A")).run.run shadowed).1 =
        ((fetch shadowing (text "A")).run.run { shadowed with index := none }).1 :=
  ⟨partialIndex_sound, fetch_with_index_eq_without rfl partialIndex_sound (text "A")⟩

end ClassPath
end ClassHeader
