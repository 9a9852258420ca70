import ClassHeader.Files.Tree
import ClassHeader.Proofs.Text.Netstring

/-!
# Contents of files

Every file that a path leads to is one of the contents of the tree. The bytes of
an archive tell its entries.
-/

namespace ClassHeader

namespace FileTree

def contents (t : FileTree) : List FileContent :=
  t.nodes.filterMap fun (_, node) =>
    match node with
    | .file content => some content
    | .directory => none

theorem mem_contents_of_find {t : FileTree} {path : Bytes} {content : FileContent}
    (h : t.find path = .ok (.file content)) : content ∈ t.contents := by
  have hnode : ∃ place, t.at? place = some (.file content) := by
    unfold find at h
    cases hplace : t.locate path with
    | error failure => simp [hplace, bind, Except.bind] at h
    | ok place =>
      refine ⟨place, ?_⟩
      cases hat : t.at? place <;> simp_all [bind, Except.bind, pure, Except.pure]
  obtain ⟨place, hat⟩ := hnode
  unfold at? at hat
  split_ifs at hat
  · cases hat
  · obtain ⟨before, behind, hnodes, -⟩ := List.lookup_eq_some_iff.mp hat
    simp [contents, hnodes]

end FileTree

theorem eq_of_flatMap_entry {entries others : List ArchiveEntry}
    (h : (entries.flatMap fun e => [e.name, e.data]) = others.flatMap fun e => [e.name, e.data]) :
    entries = others := by
  induction entries generalizing others with
  | nil => cases others <;> simp_all
  | cons e entries ih =>
    cases others with
    | nil => simp at h
    | cons e' others =>
      simp only [List.flatMap_cons, List.cons_append, List.nil_append, List.cons.injEq] at h
      obtain ⟨hname, hdata, hrest⟩ := h
      have he : e = e' := by
        cases e
        cases e'
        simp_all
      rw [he, ih hrest]

/-- Archives with the same bytes have the same entries. -/
theorem FileContent.archive_bytes_injective :
    Function.Injective fun entries => (FileContent.archive entries).bytes := by
  have hempty : text "PK\x05\x06" = [80, 75, 5, 6] := by decide
  have hfilled : text "PK\x03\x04" = [80, 75, 3, 4] := by decide
  intro entries others h
  cases entries with
  | nil => cases others <;> simp_all [bytes]
  | cons e entries =>
    cases others with
    | nil => simp [bytes, hempty, hfilled] at h
    | cons e' others =>
      exact eq_of_flatMap_entry (Netstring.encode_injective (List.append_cancel_left h))

end ClassHeader
