import LinkedViews.Proofs.Store.Linked

/-! The order of saves. A store lists the products of a document by their sources and their texts, and
products under different identifiers do not meet; so it makes no difference in which order they were
saved, but for the numbers they got. -/
namespace LinkedViews

namespace Store

theorem linkedTargets_congr_source {source source' : Uri} (same : source.SameDocument source')
    (s : Store) : s.linkedTargets source' = s.linkedTargets source := by
  have agrees (u : Uri) : u.SameDocument source' ↔ u.SameDocument source := by
    obtain ⟨scheme, host, path⟩ := same
    simp only [Uri.SameDocument, scheme, host, path]
  simp only [linkedTargets, agrees]

/-- A list of products is known by what is in it. -/
theorem linkedTargets_congr {naming : Naming} {history history' : List Operation} {source : Uri}
    (same : ∀ target, target ∈ ((new naming).run history).linkedTargets source ↔
      target ∈ ((new naming).run history').linkedTargets source) :
    ((new naming).run history).linkedTargets source =
      ((new naming).run history').linkedTargets source := by
  have perm := (List.perm_ext_iff_of_nodup (nodup_linkedTargets _ source)
    (nodup_linkedTargets _ source)).mpr same
  have ascending := ascending_linkedTargets naming history source
  have ascending' := ascending_linkedTargets naming history' source
  refine perm.eq_of_pairwise (fun a b _ _ before behind => ?_) ascending ascending'
  exact absurd behind (lt_asymm before)

def saveAll (s : Store) (products : List Product) : Store := s.run (products.map .save)

theorem saveAll_cons {s s' : Store} {product : Product} {target : Uri}
    (saved : s.save product = .ok (target, s')) (products : List Product) :
    s.saveAll (product :: products) = s'.saveAll products := by
  simp [saveAll, run, perform, saved]

/-- A product that nothing refuses: its spans are ordered, and it can be named. -/
def Accepts (naming : Naming) (product : Product) : Prop :=
  product.validate = .ok () ∧ ∃ target, product.target naming = .ok target

theorem save_of_accepts {s : Store} {product : Product} (accepts : Accepts s.naming product) :
    ∃ target s', s.save product = .ok (target, s') ∧ product.target s.naming = .ok target := by
  obtain ⟨valid, target, named⟩ := accepts
  exact ⟨target, _, save_eq_ok_iff.mpr ⟨valid, named, rfl⟩, named⟩

/-- Saves leave alone what has another identifier. -/
theorem find?_saveAll_of_not_mem {s : Store} {products : List Product} {target : Uri}
    (accepted : ∀ p ∈ products, Accepts s.naming p)
    (others : ∀ p ∈ products, p.target s.naming ≠ .ok target) :
    (s.saveAll products).find? target = s.find? target := by
  induction products generalizing s with
  | nil => rfl
  | cons product products ih =>
    obtain ⟨here, s', result, named⟩ := save_of_accepts (accepted product List.mem_cons_self)
    have saved := saved_of_save result
    have differ : here ≠ target := by
      rintro rfl
      exact others product List.mem_cons_self named
    rw [saveAll_cons result, ih, saved.elsewhere target differ]
    · rw [saved.naming]
      exact fun p member => accepted p (List.mem_cons_of_mem product member)
    · rw [saved.naming]
      exact fun p member => others p (List.mem_cons_of_mem product member)

/-- Of products with different identifiers each is found in the end, under some number. -/
theorem find?_saveAll_of_mem {s : Store} {products : List Product} {product : Product} {target : Uri}
    (accepted : ∀ p ∈ products, Accepts s.naming p)
    (distinct : (products.map (·.target s.naming)).Nodup) (member : product ∈ products)
    (named : product.target s.naming = .ok target) : ∃ generation,
      (s.saveAll products).find? target =
        some ⟨product, .build product.rangeMap, .unarmed, generation⟩ := by
  induction products generalizing s with
  | nil => simp at member
  | cons first products ih =>
    obtain ⟨here, s', result, named'⟩ := save_of_accepts (accepted first List.mem_cons_self)
    have saved := saved_of_save result
    have later : ∀ p ∈ products, Accepts s'.naming p := by
      rw [saved.naming]
      exact fun p member => accepted p (List.mem_cons_of_mem first member)
    obtain ⟨fresh, distinct⟩ := List.nodup_cons.mp distinct
    rw [saveAll_cons result]
    rcases List.mem_cons.mp member with rfl | among
    · obtain rfl : here = target := Except.ok.inj (named'.symm.trans named)
      refine ⟨s.generation.next, (find?_saveAll_of_not_mem later ?_).trans saved.here⟩
      intro p among same
      rw [saved.naming, ← named] at same
      exact fresh (List.mem_map.mpr ⟨p, among, same⟩)
    · rw [← saved.naming] at named distinct
      exact ih later distinct among named

theorem naming_saveAll (s : Store) (products : List Product) :
    (s.saveAll products).naming = s.naming := naming_run s _

theorem generation_saveAll {s : Store} {products : List Product}
    (accepted : ∀ p ∈ products, Accepts s.naming p) :
    (s.saveAll products).generation = Generation.next^[products.length] s.generation := by
  induction products generalizing s with
  | nil => rfl
  | cons product products ih =>
    obtain ⟨here, s', result, -⟩ := save_of_accepts (accepted product List.mem_cons_self)
    have saved := saved_of_save result
    rw [saveAll_cons result, ih, saved.generation, List.length_cons, Function.iterate_succ_apply]
    rw [saved.naming]
    exact fun p member => accepted p (List.mem_cons_of_mem product member)

end Store

/-- A product as it is stored, whatever its number. -/
def StoredProduct.unnumbered (stored : StoredProduct) : StoredProduct :=
  { stored with generation := .zero }

namespace Store

section Orders

variable {s : Store} {products products' : List Product}
  (accepted : ∀ p ∈ products, Accepts s.naming p)
  (distinct : (products.map (·.target s.naming)).Nodup) (perm : products.Perm products')

include accepted distinct perm

/-- Only the numbers tell in which order products were saved. -/
theorem unnumbered_saveAll_perm (target : Uri) :
    ((s.saveAll products').find? target).map StoredProduct.unnumbered =
      ((s.saveAll products).find? target).map StoredProduct.unnumbered := by
  have accepted' : ∀ p ∈ products', Accepts s.naming p :=
    fun p member => accepted p (perm.mem_iff.mpr member)
  have distinct' : (products'.map (·.target s.naming)).Nodup :=
    (perm.map _).nodup_iff.mp distinct
  by_cases saved : ∃ p ∈ products, p.target s.naming = .ok target
  · obtain ⟨p, member, named⟩ := saved
    obtain ⟨generation, found⟩ := find?_saveAll_of_mem accepted distinct member named
    obtain ⟨generation', found'⟩ :=
      find?_saveAll_of_mem accepted' distinct' (perm.mem_iff.mp member) named
    rw [found, found']
    rfl
  · have others : ∀ p ∈ products, p.target s.naming ≠ .ok target :=
      fun p member named => saved ⟨p, member, named⟩
    rw [find?_saveAll_of_not_mem accepted others, find?_saveAll_of_not_mem accepted'
      fun p member => others p (perm.mem_iff.mpr member)]

theorem mem_linkedTargets_saveAll_perm (source target : Uri) :
    target ∈ (s.saveAll products').linkedTargets source ↔
      target ∈ (s.saveAll products).linkedTargets source := by
  have same := unnumbered_saveAll_perm accepted distinct perm target
  rw [mem_linkedTargets, mem_linkedTargets]
  cases found : (s.saveAll products).find? target with
  | none =>
    rw [found, Option.map_none, Option.map_eq_none_iff] at same
    simp [same]
  | some stored =>
    rw [found, Option.map_some, Option.map_eq_some_iff] at same
    obtain ⟨stored', found', alike⟩ := same
    have product : stored'.unnumbered.product = stored.unnumbered.product := by rw [alike]
    have product : stored'.product = stored.product := product
    simp [found', product]

end Orders

/-- The list of the products of a document, after any history: ascending by their texts, it has just
the identifiers under which a product of the same scheme, host and path is stored, and it is the same
for every identifier of that document. Products that are accepted and have different identifiers may
be saved in any order: each is found in the end, with its index and unarmed, nothing else is touched,
the lists are the same for every document, and the stores differ in numbers alone. -/
theorem linked_whatever_the_order (naming : Naming) (history : List Operation) :
    let s := (new naming).run history
    (∀ source,
      (s.linkedTargets source).Pairwise (fun a b => a.text < b.text) ∧
      (∀ target, target ∈ s.linkedTargets source ↔
        ∃ stored, (target, stored) ∈ s.products.entries ∧
          stored.product.source.scheme = source.scheme ∧
          stored.product.source.host? = source.host? ∧
          stored.product.source.path = source.path) ∧
      ∀ source', source.SameDocument source' → s.linkedTargets source' = s.linkedTargets source) ∧
    ∀ products products' : List Product, (∀ p ∈ products, Accepts naming p) →
      (products.map (·.target naming)).Nodup → products.Perm products' →
      let t := s.saveAll products
      let t' := s.saveAll products'
      (∀ source, t'.linkedTargets source = t.linkedTargets source) ∧
      (∀ target, (t'.find? target).map StoredProduct.unnumbered =
        (t.find? target).map StoredProduct.unnumbered) ∧
      (∀ p ∈ products, ∀ target, p.target naming = .ok target → ∃ generation,
        t.find? target = some ⟨p, .build p.rangeMap, .unarmed, generation⟩) ∧
      (∀ target, (∀ p ∈ products, p.target naming ≠ .ok target) →
        t.find? target = s.find? target ∧ t'.find? target = s.find? target) ∧
      t'.naming = t.naming ∧ t'.generation = t.generation := by
  intro s
  have named : s.naming = naming := naming_run _ _
  refine ⟨fun source => ⟨ascending_linkedTargets naming history source, fun target => ?_,
    fun source' same => linkedTargets_congr_source same s⟩, ?_⟩
  · rw [mem_linkedTargets]
    simp only [s.products.mem_entries_iff]
    rfl
  · intro products products' accepted distinct perm t t'
    have accepted' : ∀ p ∈ products', Accepts naming p :=
      fun p member => accepted p (perm.mem_iff.mpr member)
    rw [← named] at accepted accepted' distinct ⊢
    refine ⟨fun source => ?_, unnumbered_saveAll_perm accepted distinct perm,
      fun p member target => find?_saveAll_of_mem accepted distinct member,
      fun target others => ⟨find?_saveAll_of_not_mem accepted others,
        find?_saveAll_of_not_mem accepted'
          fun p member => others p (perm.mem_iff.mpr member)⟩, ?_, ?_⟩
    · have further (products : List Product) :
          s.saveAll products = (new naming).run (history ++ products.map .save) := by
        simp only [s, saveAll, run, List.foldl_append]
      have same := mem_linkedTargets_saveAll_perm accepted distinct perm source
      simp only [further] at same
      simp only [t, t', further]
      exact linkedTargets_congr same
    · rw [naming_saveAll, naming_saveAll]
    · rw [generation_saveAll accepted, generation_saveAll accepted', perm.length_eq]

namespace Republished

def outline : Product := { product with name := "outline" }

def outlineTarget : Uri := ⟨"monto", none, "/a.mj-outline.txt", none, none⟩

theorem target_product : product.target .default = .ok target := by cbv

theorem target_outline : outline.target .default = .ok outlineTarget := by cbv

theorem accepts_both : ∀ p ∈ [product, outline], Accepts .default p := by
  simp only [List.forall_mem_cons, List.not_mem_nil, false_implies, implies_true, and_true]
  exact ⟨⟨by cbv, _, target_product⟩, ⟨by cbv, _, target_outline⟩⟩

theorem distinct_both : ([product, outline].map (·.target .default)).Nodup := by
  rw [List.map_cons, List.map_cons, List.map_nil, target_product, target_outline]
  decide

/-- Whichever of the two is saved first, both are listed. -/
theorem both_linked : (∀ p ∈ [product, outline], Accepts .default p) ∧
    ([product, outline].map (·.target .default)).Nodup ∧
    (((new .default).run history).saveAll [outline, product]).linkedTargets product.source =
      (((new .default).run history).saveAll [product, outline]).linkedTargets product.source ∧
    product.source.SameDocument { product.source with query := some "q" } ∧
    ((new .default).run history).linkedTargets { product.source with query := some "q" } =
      ((new .default).run history).linkedTargets product.source := by
  have same : product.source.SameDocument { product.source with query := some "q" } :=
    ⟨rfl, rfl, rfl⟩
  obtain ⟨listed, orders⟩ := linked_whatever_the_order .default history
  have swapped := orders [product, outline] [outline, product] accepts_both distinct_both
    (List.Perm.swap _ _ _)
  exact ⟨accepts_both, distinct_both, swapped.1 product.source, same,
    (listed product.source).2.2 _ same⟩

end Republished

end Store

end LinkedViews
