import ClassHeader.Proofs.ClassFile.Valid
import ClassHeader.Proofs.CrossCheck.Agreement
import ClassHeader.Proofs.Text.Netstring

/-!
# The first disagreement

A comparison records the first disagreement and lets all later checks pass. One
part of it after another is shown to survey its entries (`Surveys`): nothing is
recorded where the readings agree at all of them, and otherwise a fault at the
first one where they do not. What a later part may take for granted, the
agreement at earlier entries, is what its survey is proved under; so a list of
the other reading is only read where it is as long as ours.
-/

namespace ClassHeader.CrossCheck

-- ---------------------------------------------------------------------------
-- Places
-- ---------------------------------------------------------------------------

theorem MemberPart.name_inj {p q : MemberPart} : p.name = q.name ↔ p = q := by
  cases p <;> cases q <;> simp [MemberPart.name, Utf8.text_injective.eq_iff]

theorem MemberPart.name_cases (part : MemberPart) :
    part.name = text "fields" ∨ part.name = text "methods" := by
  cases part <;> simp [MemberPart.name]

theorem Entry.path_injective : Function.Injective Entry.path := by
  intro a b h
  have hnat : ∀ {m n}, Text.ofNat m = Text.ofNat n ↔ m = n :=
    (Function.LeftInverse.injective Netstring.numberOf_ofNat).eq_iff
  have htext : ∀ {s t}, text s = text t ↔ s = t := Utf8.text_injective.eq_iff
  cases a <;> cases b <;>
    simp only [Entry.path, List.cons.injEq, htext, hnat, MemberPart.name_inj] at h <;>
    grind [MemberPart.name_cases]

def Blames (e : Error) (className : Bytes) (path : List Bytes) : Prop :=
  ∃ fault, e.fault? = some fault ∧ fault.phase = .decode ∧ fault.kind = .invalidData ∧
    fault.className = className ∧ fault.path = path

theorem blames_path_iff {e : Error} {name : Bytes} {entry other : Entry}
    (h : Blames e name entry.path) : Blames e name other.path ↔ other = entry := by
  constructor
  · intro hother
    obtain ⟨fault, hfault, -, -, -, hpath⟩ := h
    obtain ⟨fault', hfault', -, -, -, hpath'⟩ := hother
    obtain rfl : fault = fault' := Option.some.inj (hfault.symm.trans hfault')
    exact Entry.path_injective (hpath'.symm.trans hpath)
  · rintro rfl
    exact h

-- ---------------------------------------------------------------------------
-- The first of some entries
-- ---------------------------------------------------------------------------

/-- The first of some entries at which the readings disagree. -/
inductive FirstDisagreement (c : ClassFile) (r : Reading) : List Entry → Entry → Prop
  | here {entry : Entry} {rest : List Entry} (h : ¬ entry.Agrees c r) :
      FirstDisagreement c r (entry :: rest) entry
  | later {first entry : Entry} {rest : List Entry} (hfirst : first.Agrees c r)
      (h : FirstDisagreement c r rest entry) : FirstDisagreement c r (first :: rest) entry

variable {c : ClassFile} {r : Reading}

theorem firstDisagreement_append {as bs : List Entry} {entry : Entry}
    (h : FirstDisagreement c r (as ++ bs) entry) :
    FirstDisagreement c r as entry ∨
      (∀ a ∈ as, a.Agrees c r) ∧ FirstDisagreement c r bs entry := by
  induction as with
  | nil => exact .inr ⟨List.forall_mem_nil _, h⟩
  | cons a as ih =>
    cases h with
    | here hentry => exact .inl (.here hentry)
    | later hfirst hrest =>
      obtain has | ⟨has, hbs⟩ := ih hrest
      · exact .inl (.later hfirst has)
      · exact .inr ⟨List.forall_mem_cons.mpr ⟨hfirst, has⟩, hbs⟩

theorem firstDisagreement_singleton {first entry : Entry}
    (h : FirstDisagreement c r [first] entry) : entry = first ∧ ¬ first.Agrees c r := by
  cases h with
  | here h => exact ⟨rfl, h⟩
  | later _ h => cases h

theorem FirstDisagreement.not_forall {entries : List Entry} {entry : Entry}
    (h : FirstDisagreement c r entries entry) : ¬ ∀ entry ∈ entries, entry.Agrees c r := by
  intro hall
  induction h with
  | here hentry => exact hentry (hall _ List.mem_cons_self)
  | later _ _ ih => exact ih (List.forall_mem_cons.mp hall).2

theorem agrees_or_firstDisagreement (c : ClassFile) (r : Reading) (entries : List Entry) :
    (∀ entry ∈ entries, entry.Agrees c r) ∨ ∃ entry, FirstDisagreement c r entries entry := by
  induction entries with
  | nil => exact .inl (List.forall_mem_nil _)
  | cons first rest ih =>
    by_cases hfirst : first.Agrees c r
    · obtain hrest | ⟨entry, hrest⟩ := ih
      · exact .inl (List.forall_mem_cons.mpr ⟨hfirst, hrest⟩)
      · exact .inr ⟨entry, .later hfirst hrest⟩
    · exact .inr ⟨first, .here hfirst⟩

-- ---------------------------------------------------------------------------
-- Surveys
-- ---------------------------------------------------------------------------

/-- What is recorded stays, and nothing else happens. -/
def Keeps (step : Comparison → Result Comparison) : Prop :=
  ∀ x, x.error.isSome → step x = .ok x

theorem Keeps.bind {f g : Comparison → Result Comparison} (hf : Keeps f) (hg : Keeps g) :
    Keeps fun x => f x >>= g := by
  intro x hx
  calc f x >>= g = g x := by rw [hf x hx, Result.ok_bind]
    _ = .ok x := hg x hx

/-- The step records the first disagreement at the entries, if there is one. -/
structure Surveys (c : ClassFile) (r : Reading) (entries : List Entry)
    (step : Comparison → Result Comparison) : Prop where
  passes : (∀ entry ∈ entries, entry.Agrees c r) → ∀ x, x.error = none → step x = .ok x
  records : ∀ entry, FirstDisagreement c r entries entry → ∀ x, x.error = none →
    ∃ e, step x = .ok { x with error := some e } ∧ Blames e x.className entry.path

namespace Surveys

variable {as bs : List Entry} {entry : Entry}

theorem pure : Surveys c r [] Except.ok where
  passes _ _ _ := rfl
  records _ h := nomatch h

theorem bind {f g : Comparison → Result Comparison} (hf : Surveys c r as f) (hkeeps : Keeps g)
    (hg : (∀ a ∈ as, a.Agrees c r) → Surveys c r bs g) :
    Surveys c r (as ++ bs) fun x => f x >>= g where
  passes hagrees x hx := by
    rw [List.forall_mem_append] at hagrees
    rw [hf.passes hagrees.1 x hx, Result.ok_bind]
    exact (hg hagrees.1).passes hagrees.2 x hx
  records entry hfirst x hx := by
    obtain hfirst | ⟨hagrees, hfirst⟩ := firstDisagreement_append hfirst
    · obtain ⟨e, hstep, he⟩ := hf.records entry hfirst x hx
      refine ⟨e, ?_, he⟩
      rw [hstep, Result.ok_bind]
      exact hkeeps _ rfl
    · obtain ⟨e, hstep, he⟩ := (hg hagrees).records entry hfirst x hx
      refine ⟨e, ?_, he⟩
      rw [hf.passes hagrees x hx, Result.ok_bind]
      exact hstep

theorem comp {f g : Comparison → Comparison} (hf : Surveys c r as fun x => .ok (f x))
    (hkeeps : ∀ x, x.error.isSome → g x = x)
    (hg : (∀ a ∈ as, a.Agrees c r) → Surveys c r bs fun x => .ok (g x)) :
    Surveys c r (as ++ bs) fun x => .ok (g (f x)) :=
  hf.bind (fun x hx => congrArg Except.ok (hkeeps x hx)) hg

theorem single {step : Comparison → Comparison}
    (hpasses : entry.Agrees c r → ∀ x, x.error = none → step x = x)
    (hrecords : ¬ entry.Agrees c r → ∀ x, x.error = none →
      ∃ e, step x = { x with error := some e } ∧ Blames e x.className entry.path) :
    Surveys c r [entry] fun x => .ok (step x) where
  passes hagrees x hx := congrArg Except.ok (hpasses (hagrees entry List.mem_cons_self) x hx)
  records other hfirst x hx := by
    obtain ⟨rfl, hentry⟩ := firstDisagreement_singleton hfirst
    obtain ⟨e, hstep, he⟩ := hrecords hentry x hx
    exact ⟨e, congrArg Except.ok hstep, he⟩

end Surveys

-- ---------------------------------------------------------------------------
-- Checks
-- ---------------------------------------------------------------------------

namespace Comparison

variable {x : Comparison} {path : List Bytes} {entry : Entry}

@[simp] theorem check_of_isSome {ours theirs : Shown} (h : x.error.isSome) :
    x.check path ours theirs = x := if_pos (.inl h)

@[simp] theorem checkRead_of_isSome {name : Result Bytes} (h : x.error.isSome) :
    x.checkRead path name = x := by
  obtain ⟨e, he⟩ := Option.isSome_iff_exists.mp h
  simp only [checkRead, he]

@[simp] theorem checkRead_ok {name : Bytes} : x.checkRead path (.ok name) = x := by
  cases hx : x.error <;> simp only [checkRead, hx]

@[simp] theorem checkName_of_isSome {ours : Bytes} {theirs : Result Bytes}
    (h : x.error.isSome) : x.checkName path ours theirs = x := by
  simp [checkName, h]

@[simp] theorem checkMember_of_isSome {p : Pool} {m : MemberInfo} {name descriptor : Bytes}
    {access : UInt16} (h : x.error.isSome) :
    x.checkMember p path m name descriptor access = x := by
  simp [checkMember, h]

@[simp] theorem checkField_of_isSome {p : Pool} {m : MemberInfo} {theirs : MemberReading}
    (h : x.error.isSome) : x.checkField p path m theirs = x := by
  simp [checkField, h]

@[simp] theorem checkMethod_of_isSome {p : Pool} {m : MemberInfo} {theirs : MemberReading}
    (h : x.error.isSome) : x.checkMethod p path m theirs = x := by
  simp [checkMethod, h]

theorem surveys_check {ours theirs : Shown} (h : entry.Agrees c r ↔ ours = theirs) :
    Surveys c r [entry] fun x => .ok (x.check entry.path ours theirs) := by
  refine .single (fun hagrees x _ => if_pos (.inr (h.mp hagrees))) fun hentry x hx => ?_
  have hcheck : ¬ (x.error.isSome ∨ ours = theirs) := by
    rw [hx, ← h]
    simpa using hentry
  exact ⟨_, if_neg hcheck, _, rfl, rfl, rfl, rfl, rfl⟩

theorem checkRead_error (e : Error) (path : List Bytes) (hx : x.error = none) :
    ∃ e', x.checkRead path (.error e) = { x with error := some e' } ∧
      Blames e' x.className path := by
  have hread : x.checkRead path (.error e) = { x with error := some (.causedBy
      (x.faultAt path (text "reference parser cannot read the entry")) e) } := by
    simp only [checkRead, hx]
  exact ⟨_, hread, _, rfl, rfl, rfl, rfl, rfl⟩

theorem surveys_checkName {ours : Bytes} {theirs : Result Bytes}
    (h : entry.Agrees c r ↔ theirs = .ok ours) :
    Surveys c r [entry] fun x => .ok (x.checkName entry.path ours theirs) := by
  cases theirs with
  | error e =>
    refine .single (fun hagrees => nomatch h.mp hagrees) fun _ x hx => ?_
    obtain ⟨e', hread, he'⟩ := checkRead_error e entry.path hx
    refine ⟨e', ?_, he'⟩
    rw [checkName, hread]
    exact check_of_isSome rfl
  | ok name =>
    simp only [checkName, checkRead_ok]
    refine surveys_check (h.trans ?_)
    simp [valueOf, Except.toOption, eq_comm]

/-- Both names of a member are read before either is compared. -/
theorem surveys_checkRead {name descriptor : Result Bytes}
    (h : entry.Agrees c r ↔ (∃ value, name = .ok value) ∧ ∃ value, descriptor = .ok value) :
    Surveys c r [entry] fun x =>
      .ok ((x.checkRead entry.path name).checkRead entry.path descriptor) := by
  cases name with
  | error e =>
    refine .single (fun hagrees => nomatch (h.mp hagrees).1) fun _ x hx => ?_
    obtain ⟨e', hread, he'⟩ := checkRead_error e entry.path hx
    refine ⟨e', ?_, he'⟩
    rw [hread]
    exact checkRead_of_isSome rfl
  | ok name =>
    simp only [checkRead_ok]
    cases descriptor with
    | error e =>
      exact .single (fun hagrees => nomatch (h.mp hagrees).2) fun _ x hx => checkRead_error _ _ hx
    | ok descriptor =>
      refine .single (fun _ x _ => checkRead_ok) fun hentry => ?_
      exact absurd (h.mpr ⟨⟨name, rfl⟩, descriptor, rfl⟩) hentry

-- ---------------------------------------------------------------------------
-- Members
-- ---------------------------------------------------------------------------

section

variable {part : MemberPart} {m : MemberInfo} {theirs : MemberReading} {i : Nat}

theorem sameName_iff {name name' : Bytes} :
    SameName (.ok name) (.ok name') ↔ Shown.name name = .name name' := by
  simp [SameName, eq_comm]

theorem surveys_checkMember {name descriptor : Bytes} (hm : (part.ours c)[i]? = some m)
    (htheirs : (part.theirs r)[i]? = some theirs) (hvalid : m.Valid c.pool)
    (hname : theirs.name = .ok name) (hdescriptor : theirs.descriptor = .ok descriptor) :
    Surveys c r [.memberName part i, .descriptor part i, .memberAccess part i] fun x =>
      .ok (x.checkMember c.pool [part.name, Text.ofNat i] m name descriptor theirs.access) := by
  obtain ⟨ourName, hourName⟩ : ∃ name, m.name c.pool = .ok name :=
    Pool.exists_utf8_iff.mpr hvalid.name
  obtain ⟨ourDescriptor, hourDescriptor⟩ : ∃ descriptor, m.descriptor c.pool = .ok descriptor :=
    Pool.exists_utf8_iff.mpr hvalid.descriptor
  have hnames : (Entry.memberName part i).Agrees c r ↔ Shown.name ourName = .name name := by
    refine (at_iff hm htheirs).trans ?_
    rw [hourName, hname, sameName_iff]
  have hdescriptors : (Entry.descriptor part i).Agrees c r ↔
      Shown.name ourDescriptor = .name descriptor := by
    refine (at_iff hm htheirs).trans ?_
    rw [hourDescriptor, hdescriptor, sameName_iff]
  have haccess : (Entry.memberAccess part i).Agrees c r ↔
      Shown.number m.access.toNat = .number theirs.access.toNat :=
    (at_iff hm htheirs).trans (by simp [← UInt16.toNat_inj])
  simp only [checkMember, hourName, hourDescriptor, checkRead_ok]
  exact ((surveys_check hnames).comp (fun _ => check_of_isSome) fun _ =>
    surveys_check hdescriptors).comp (fun _ => check_of_isSome) fun _ => surveys_check haccess

theorem surveys_checkField (hm : (part.ours c)[i]? = some m)
    (htheirs : (part.theirs r)[i]? = some theirs) (hvalid : m.Valid c.pool) :
    Surveys c r [.member part i, .memberName part i, .descriptor part i, .memberAccess part i]
      fun x => .ok (x.checkField c.pool [part.name, Text.ofNat i] m theirs) := by
  have hread : (Entry.member part i).Agrees c r ↔ (∃ value, theirs.name = .ok value) ∧
      ∃ value, theirs.descriptor = .ok value := at_iff hm htheirs
  refine (surveys_checkRead hread).comp (g := (checkMember · c.pool [part.name, Text.ofNat i] m
    (valueOf theirs.name) (valueOf theirs.descriptor) theirs.access))
    (fun _ => checkMember_of_isSome) fun hagrees => ?_
  obtain ⟨⟨name, hname⟩, descriptor, hdescriptor⟩ := hread.mp (hagrees _ List.mem_cons_self)
  rw [hname, hdescriptor]
  exact surveys_checkMember hm htheirs hvalid hname hdescriptor

theorem surveys_checkMethod (hm : c.methods[i]? = some m) (htheirs : r.methods[i]? = some theirs)
    (hvalid : m.Valid c.pool) :
    Surveys c r (MemberPart.methods.entriesAt i) fun x =>
      .ok (x.checkMethod c.pool [text "methods", Text.ofNat i] m theirs) := by
  have hlength : (Entry.codeLength i).Agrees c r ↔
      Shown.number (lengthOf (codeLength? c.pool m)) = .number (lengthOf theirs.codeLength) :=
    (at_iff hm htheirs).trans (by rw [codeLength_iff, Shown.number.injEq])
  have hfield : Surveys c r [.member .methods i, .memberName .methods i, .descriptor .methods i,
      .memberAccess .methods i] _ := surveys_checkField hm htheirs hvalid
  exact hfield.comp (fun _ => check_of_isSome) fun _ => surveys_check hlength

end

-- ---------------------------------------------------------------------------
-- Lists
-- ---------------------------------------------------------------------------

section

variable {α β : Type} {element : Comparison → List Bytes → α → β → Comparison} {part : Bytes}
  {ours : List α} {theirs : List β} {entriesAt : Nat → List Entry}

theorem checkFrom_keeps (element : Comparison → List Bytes → α → β → Comparison) (part : Bytes)
    (theirs : List β) (i : Nat) (rest : List α) :
    Keeps fun x => checkFrom element part theirs x i rest := by
  intro x hx
  cases rest with
  | nil => rfl
  | cons a rest => exact if_pos hx

theorem checkFrom_cons (hkeeps : ∀ x path a b, x.error.isSome → element x path a b = x)
    {i : Nat} {a : α} {b : β} (hb : theirs[i]? = some b) (rest : List α) :
    (fun x => checkFrom element part theirs x i (a :: rest)) = fun x =>
      .ok (element x [part, Text.ofNat i] a b) >>= fun x =>
        checkFrom element part theirs x (i + 1) rest := by
  funext x
  rw [Result.ok_bind]
  by_cases hx : x.error.isSome
  · rw [hkeeps _ _ _ _ hx]
    exact (checkFrom_keeps _ _ _ _ _ x hx).trans (checkFrom_keeps _ _ _ _ _ x hx).symm
  · rw [checkFrom, if_neg hx, hb]

/-- The induction is on our elements from a position on. -/
theorem surveys_checkFrom (hkeeps : ∀ x path a b, x.error.isSome → element x path a b = x)
    (hlength : ours.length = theirs.length)
    (helement : ∀ i a b, ours[i]? = some a → theirs[i]? = some b →
      Surveys c r (entriesAt i) fun x => .ok (element x [part, Text.ofNat i] a b))
    {i : Nat} {rest : List α} (hrest : ours.drop i = rest) :
    Surveys c r ((List.range' i rest.length).flatMap entriesAt) fun x =>
      checkFrom element part theirs x i rest := by
  induction rest generalizing i with
  | nil => exact .pure
  | cons a rest ih =>
    have ha : ours[i]? = some a := by
      rw [← List.head?_drop, hrest, List.head?_cons]
    have hi : i < theirs.length := hlength ▸ (List.getElem?_eq_some_iff.mp ha).1
    have hb : theirs[i]? = some theirs[i] := List.getElem?_eq_getElem hi
    rw [List.length_cons, List.range'_succ, List.flatMap_cons, checkFrom_cons hkeeps hb rest]
    refine (helement i a _ ha hb).bind (checkFrom_keeps _ _ _ _ _) fun _ => ih ?_
    rw [← List.tail_drop, hrest, List.tail_cons]

theorem checkList_keeps (part : Bytes) (element : Comparison → List Bytes → α → β → Comparison)
    (ours : List α) (theirs : List β) : Keeps (checkList · part element ours theirs) := by
  intro x hx
  simp only [checkList, check_of_isSome hx]
  exact checkFrom_keeps _ _ _ _ _ x hx

theorem surveys_checkList {count : Entry} (hpath : count.path = [part])
    (hcount : count.Agrees c r ↔ ours.length = theirs.length)
    (hkeeps : ∀ x path a b, x.error.isSome → element x path a b = x)
    (helement : ∀ i a b, ours[i]? = some a → theirs[i]? = some b →
      Surveys c r (entriesAt i) fun x => .ok (element x [part, Text.ofNat i] a b)) :
    Surveys c r (listEntries count entriesAt ours.length)
      (checkList · part element ours theirs) := by
  have hlength : Surveys c r [count] fun x =>
      .ok (x.check count.path (.number ours.length) (.number theirs.length)) :=
    surveys_check (hcount.trans (by simp))
  rw [hpath] at hlength
  refine hlength.bind (checkFrom_keeps element part theirs 0 ours) fun hagrees => ?_
  rw [List.range_eq_range']
  exact surveys_checkFrom hkeeps (hcount.mp (hagrees count List.mem_cons_self)) helement
    List.drop_zero

end

-- ---------------------------------------------------------------------------
-- Classes
-- ---------------------------------------------------------------------------

theorem surveys_checkClass {name superName : Bytes} (hname : c.name = .ok name)
    (hsuper : c.superName = .ok superName) :
    Surveys c r classEntries fun x => .ok (x.checkClass c name superName r) := by
  have hmajor : Entry.major.Agrees c r ↔ Shown.number c.major.toNat = .number r.major.toNat := by
    simp [Entry.Agrees, ← UInt16.toNat_inj]
  have hminor : Entry.minor.Agrees c r ↔ Shown.number c.minor.toNat = .number r.minor.toNat := by
    simp [Entry.Agrees, ← UInt16.toNat_inj]
  have haccess : Entry.access.Agrees c r ↔
      Shown.number c.access.toNat = .number r.access.toNat := by
    simp [Entry.Agrees, ← UInt16.toNat_inj]
  have hthis : Entry.this.Agrees c r ↔ r.thisName = .ok name := by
    simp [Entry.Agrees, SameName, hname]
  have hbase : Entry.super.Agrees c r ↔ r.superName.getD (.ok []) = .ok superName := by
    simp [Entry.Agrees, SameName, hsuper]
  exact ((((surveys_check hmajor).comp (fun _ => check_of_isSome) fun _ =>
    surveys_check hminor).comp (fun _ => check_of_isSome) fun _ =>
    surveys_check haccess).comp (fun _ => checkName_of_isSome) fun _ =>
    surveys_checkName hthis).comp (fun _ => checkName_of_isSome) fun _ => surveys_checkName hbase

theorem surveys_interfaces {names : List Bytes} (hnames : c.interfaceNames = .ok names) :
    Surveys c r (interfaceEntries c)
      (checkList · (text "interfaces") checkName names r.interfaces) := by
  obtain ⟨hlength, hnamed⟩ := forall₂_iff_at.mp (Result.mapM_ok_iff.mp hnames)
  rw [interfaceEntries, hlength]
  refine surveys_checkList rfl ?_ (fun _ _ _ _ => checkName_of_isSome)
    fun i name theirs hi htheirs => ?_
  · rw [← hlength]
    rfl
  · have hi' : i < c.interfaces.length := hlength ▸ (List.getElem?_eq_some_iff.mp hi).1
    obtain ⟨index, name', hindex, hi'', hname⟩ := hnamed i hi'
    obtain rfl : name = name' := Option.some.inj (hi.symm.trans hi'')
    have hagrees : (Entry.interface i).Agrees c r ↔ theirs = .ok name :=
      (at_iff hindex htheirs).trans (by simp [SameName, hname])
    exact surveys_checkName hagrees

theorem surveys_fields (hvalid : ∀ m ∈ c.fields, m.Valid c.pool) :
    Surveys c r (MemberPart.fields.entries c)
      (checkList · (text "fields") (checkField · c.pool) c.fields r.fields) :=
  surveys_checkList rfl Iff.rfl (fun _ _ _ _ => checkField_of_isSome) fun _ m _ hm htheirs =>
    surveys_checkField hm htheirs (hvalid m (List.mem_of_getElem? hm))

theorem surveys_methods (hvalid : ∀ m ∈ c.methods, m.Valid c.pool) :
    Surveys c r (MemberPart.methods.entries c)
      (checkList · (text "methods") (checkMethod · c.pool) c.methods r.methods) :=
  surveys_checkList rfl Iff.rfl (fun _ _ _ _ => checkMethod_of_isSome) fun _ m _ hm htheirs =>
    surveys_checkMethod hm htheirs (hvalid m (List.mem_of_getElem? hm))

end Comparison

-- ---------------------------------------------------------------------------
-- Valid classes
-- ---------------------------------------------------------------------------

theorem exists_names (h : c.Valid) : (∃ name, c.name = .ok name) ∧
    (∃ name, c.superName = .ok name) ∧ ∃ names, c.interfaceNames = .ok names := by
  refine ⟨h.pool.exists_className_iff.mpr h.this, ?_, ?_⟩
  · rw [ClassFile.superName, ClassFile.hasSuper]
    by_cases hsuper : c.superClass = 0
    · exact ⟨[], by simp [hsuper]⟩
    · obtain ⟨name, hname⟩ := h.pool.exists_className_iff.mpr (h.super hsuper)
      exact ⟨name, by simpa [hsuper] using hname⟩
  · exact Result.exists_mapM fun i hi => h.pool.exists_className_iff.mpr (h.interfaces i hi)

/-- A comparison of a valid class surveys all entries and tells what it has recorded. -/
theorem exists_surveys_compare (h : c.Valid) (r : Reading) : ∃ name step, c.name = .ok name ∧
    Surveys c r (entries c) step ∧
    compare (.ok r) (some c) = step { className := name } >>= Comparison.outcome := by
  obtain ⟨⟨name, hname⟩, ⟨superName, hsuper⟩, names, hnames⟩ := exists_names h
  have hmethods : Keeps fun x => x.checkList (text "methods") (.checkMethod · c.pool)
    c.methods r.methods := Comparison.checkList_keeps _ _ _ _
  have hfields := (Comparison.checkList_keeps (text "fields") (.checkField · c.pool)
    c.fields r.fields).bind hmethods
  have hinterfaces := (Comparison.checkList_keeps (text "interfaces") .checkName
    names r.interfaces).bind hfields
  refine ⟨name, _, hname, (Comparison.surveys_checkClass hname hsuper).bind hinterfaces fun _ =>
    (Comparison.surveys_interfaces hnames).bind hfields fun _ =>
    (Comparison.surveys_fields h.fields).bind hmethods fun _ =>
    Comparison.surveys_methods h.methods, ?_⟩
  simp only [compare, hname, hsuper, hnames, Result.ok_bind, bind_assoc]
  rfl

theorem compare_of_agrees (h : c.Valid) (hr : Agrees c r) :
    compare (.ok r) (some c) = .ok () := by
  obtain ⟨name, step, -, hsurvey, hcompare⟩ := exists_surveys_compare h r
  rw [hcompare, hsurvey.passes (forall_entries_iff.mpr hr) _ rfl]
  rfl

theorem compare_of_firstDisagreement {entry : Entry} (h : c.Valid)
    (hfirst : FirstDisagreement c r (entries c) entry) : ∃ name e, c.name = .ok name ∧
      compare (.ok r) (some c) = .error e ∧ Blames e name entry.path := by
  obtain ⟨name, step, hname, hsurvey, hcompare⟩ := exists_surveys_compare h r
  obtain ⟨e, hstep, he⟩ := hsurvey.records entry hfirst { className := name } rfl
  refine ⟨name, e, hname, ?_, he⟩
  rw [hcompare, hstep]
  rfl

/-- A comparison of a valid class with any other reading accepts it if and only if they agree.
Otherwise the error names the first entry, and no other one, at which they disagree. No list of
theirs is read past its end. -/
theorem compare_tells_first_disagreement (c : ClassFile) (r : Reading)
    (hvalid : c.validate = .ok ()) :
    (compare (.ok r) (some c) = .ok () ↔ Agrees c r) ∧
    (∀ e, compare (.ok r) (some c) = .error e → ∃ name entry, c.name = .ok name ∧
      FirstDisagreement c r (entries c) entry ∧
      ∀ other : Entry, Blames e name other.path ↔ other = entry) ∧
    ∀ position length, compare (.ok r) (some c) ≠ .error (pastEnd position length) := by
  have hc := ClassFile.validate_ok_iff.mp hvalid
  obtain hagrees | ⟨entry, hfirst⟩ := agrees_or_firstDisagreement c r (entries c)
  · have hr := forall_entries_iff.mp hagrees
    have hok := compare_of_agrees hc hr
    refine ⟨iff_of_true hok hr, fun e he => ?_, fun position length he => ?_⟩
    · cases hok.symm.trans he
    · cases hok.symm.trans he
  · obtain ⟨name, e, hname, herror, hblames⟩ := compare_of_firstDisagreement hc hfirst
    refine ⟨?_, fun e' he' => ?_, fun position length he' => ?_⟩
    · rw [herror, ← forall_entries_iff]
      exact iff_of_false (fun h => nomatch h) hfirst.not_forall
    · cases herror.symm.trans he'
      exact ⟨name, entry, hname, hfirst, fun other => blames_path_iff hblames⟩
    · cases herror.symm.trans he'
      obtain ⟨fault, hfault, -⟩ := hblames
      cases hfault

def pair : ClassFile where
  magic := classMagic
  minor := 0
  major := 52
  pool := ⟨[none, some (.utf8 (text "Pair")), some (.classRef 1), some (.utf8 (text "x")),
    some (.utf8 (text "y")), some (.utf8 (text "I")), some (.utf8 (text "()I"))]⟩
  access := 0
  thisClass := 2
  superClass := 0
  interfaces := []
  fields := [⟨2, 3, 5, []⟩, ⟨2, 4, 5, []⟩]
  methods := [⟨1, 3, 6, []⟩]
  attributes := []

def pairMisread : Reading :=
  let told := Reading.ofClassFile pair
  { told with fields := told.fields.map ({ · with name := .ok (text "x") }), methods := [] }

theorem compare_tells_first_disagreement_pair : pair.validate = .ok () ∧
    ¬ Agrees pair pairMisread ∧
    ∃ e, compare (.ok pairMisread) (some pair) = .error e ∧
      FirstDisagreement pair pairMisread (entries pair) (.memberName .fields 1) := by
  have hvalid : pair.validate = .ok () := by decide +kernel
  obtain ⟨hok, herror, -⟩ := compare_tells_first_disagreement pair pairMisread hvalid
  have hresult : compare (.ok pairMisread) (some pair) = .error (.fault {
      phase := .decode, kind := .invalidData, className := text "Pair"
      path := [text "fields", text "1", text "name"]
      detail := text "decoded \"y\", reference parser read \"x\"" }) := by decide +kernel
  have hname : pair.name = .ok (text "Pair") := by decide +kernel
  obtain ⟨name, entry, hname', hfirst, hblames⟩ := herror _ hresult
  obtain rfl : text "Pair" = name := Except.ok.inj (hname.symm.trans hname')
  obtain rfl : Entry.memberName .fields 1 = entry :=
    (hblames _).mp ⟨_, rfl, rfl, rfl, rfl, by decide +kernel⟩
  refine ⟨hvalid, fun hagrees => ?_, _, hresult, hfirst⟩
  cases hresult.symm.trans (hok.mpr hagrees)

end ClassHeader.CrossCheck
