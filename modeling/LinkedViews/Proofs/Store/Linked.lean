import LinkedViews.Proofs.Product.Recognition
import LinkedViews.Proofs.Store.Arming
import LinkedViews.Proofs.Store.Consistency
import LinkedViews.Proofs.Text.Order
import LinkedViews.Proofs.Uri.Text

/-! The products of a document. A store lists each of them once, by the order of their texts, and the
list does not depend on what is armed. What is listed was named by the store, so it was read as an
identifier and the naming knows it again. -/
namespace LinkedViews.Store

/-- Every product stands under the identifier that it encodes to, however many there were. -/
theorem target_of_find?_run {naming : Naming} {history : List Operation} {target : Uri}
    {stored : StoredProduct} (found : ((new naming).run history).find? target = some stored) :
    stored.product.target naming = .ok target := by
  induction history using List.reverseRecOn generalizing stored with
  | nil => simp [run] at found
  | append_singleton history o ih =>
    rw [run_concat] at found
    by_cases saved : o.saved? ((new naming).run history).naming = some target
    · obtain ⟨product, -, named, here⟩ := find?_perform_of_saved saved
      obtain rfl := Option.some.inj (found.symm.trans here)
      rw [naming_run] at named
      exact named
    · rcases find?_perform_of_unsaved saved with same | ⟨before, present, armed⟩
      · exact ih (same ▸ found)
      · have named := ih present
        obtain rfl := Option.some.inj (found.symm.trans armed)
        exact named

section Named

variable {naming : Naming} {history : List Operation} {target : Uri} {stored : StoredProduct}

theorem read_of_find?_run (found : ((new naming).run history).find? target = some stored) :
    ∃ raw, Uri.parse raw = .ok target :=
  ⟨_, Uri.parse_of_read (target_of_find?_run found)⟩

theorem isTarget_of_find?_run (isScheme : Uri.IsScheme naming.scheme.toList)
    (found : ((new naming).run history).find? target = some stored) :
    naming.isTarget target = true :=
  Naming.isTarget_of_encode isScheme (target_of_find?_run found)

end Named

theorem nodup_linkedTargets (s : Store) (source : Uri) : (s.linkedTargets source).Nodup := by
  rw [linkedTargets, (List.mergeSort_perm _ _).nodup_iff]
  exact s.products.nodup.sublist (List.filter_sublist.map Prod.fst)

theorem sorted_linkedTargets (s : Store) (source : Uri) :
    (s.linkedTargets source).Pairwise fun a b => a.text ≤ b.text := by
  refine (List.pairwise_mergeSort ?trans ?total _).imp fun {a b} before =>
    Text.precedes_iff_le.mp before
  case trans =>
    intro a b c first second
    rw [Text.precedes_iff_le] at *
    exact first.trans second
  case total =>
    intro a b
    rw [Bool.or_eq_true, Text.precedes_iff_le, Text.precedes_iff_le]
    exact le_total a.text b.text

/-- No two products of a document have the same text. -/
theorem ascending_linkedTargets (naming : Naming) (history : List Operation) (source : Uri) :
    (((new naming).run history).linkedTargets source).Pairwise fun a b => a.text < b.text := by
  have sorted := sorted_linkedTargets ((new naming).run history) source
  have differ := nodup_linkedTargets ((new naming).run history) source
  refine (sorted.and differ).imp_of_mem fun {a b} member member' order => ?_
  obtain ⟨before, apart⟩ := order
  obtain ⟨_, found, -⟩ := mem_linkedTargets.mp member
  obtain ⟨_, found', -⟩ := mem_linkedTargets.mp member'
  obtain ⟨_, read⟩ := read_of_find?_run found
  obtain ⟨_, read'⟩ := read_of_find?_run found'
  exact lt_of_le_of_ne before fun same => apart (Uri.eq_of_text_eq read read' same)

theorem linkedTargets_arm (s : Store) (target source : Uri) :
    (s.arm target).linkedTargets source = s.linkedTargets source := by
  unfold arm
  cases found : s.find? target with
  | none => rfl
  | some stored =>
    have keys := Keyed.keys_filter_putIn stored.armed
      (fun stored => decide (stored.product.source.SameDocument source)) found rfl
    simp only [linkedTargets, Keyed.put, keys]

theorem linkedTargets_foldl_arm (s : Store) (targets : List Uri) (source : Uri) :
    (targets.foldl arm s).linkedTargets source = s.linkedTargets source := by
  induction targets generalizing s with
  | nil => rfl
  | cons target targets ih => rw [List.foldl_cons, ih, linkedTargets_arm]

end LinkedViews.Store
