import LinkedViews.Proofs.Product.Naming
import LinkedViews.Proofs.Uri.Scheme

/-! Telling products by their scheme. A naming is accepted if an identifier can begin with its scheme,
which leaves room for texts that are more than a scheme; only a naming whose scheme is no more than
that knows its own products again. -/
namespace LinkedViews

open Text

namespace Naming

open LinkedViews.Uri

theorem scheme_of_encode {naming : Naming} {source target : Uri} {name language : String}
    (encoded : naming.encode source name language = .ok target) :
    IsSchemeName (schemePart naming.scheme.toList) ∧
      target.scheme.toList = (schemePart naming.scheme.toList).map lower := by
  rw [encode_eq] at encoded
  exact scheme_of_parse (parse_of_read encoded) (String.toList_ofList ..)

/-- A product is recognized by the naming that named it, provided that its scheme is one. -/
theorem isTarget_of_encode {naming : Naming} {source target : Uri} {name language : String}
    (isScheme : IsScheme naming.scheme.toList)
    (encoded : naming.encode source name language = .ok target) : naming.isTarget target = true := by
  obtain ⟨-, scheme⟩ := scheme_of_encode encoded
  have named : IsSchemeName naming.scheme.toList := ⟨isScheme.begins, isScheme.plain⟩
  rw [named.schemePart_eq, isScheme.small] at scheme
  simpa [isTarget] using String.toList_inj.mp scheme

theorem of_new {scheme sourceScheme : String} {naming : Naming}
    (accepted : Naming.new scheme sourceScheme = .ok naming) :
    (∃ checked, Uri.read (scheme ++ ":/") = .ok checked) ∧
      naming = ⟨lowered scheme, lowered sourceScheme⟩ := by
  unfold Naming.new at accepted
  cases own : Uri.read (scheme ++ ":/") with
  | error e => simp [own, bind, Except.bind] at accepted
  | ok checked =>
    cases other : Uri.read (sourceScheme ++ ":/") with
    | error e => simp [own, other, bind, Except.bind] at accepted
    | ok checked' =>
      simp only [own, other, bind, Except.bind, pure, Except.pure, Except.ok.injEq] at accepted
      exact ⟨⟨checked, rfl⟩, accepted.symm⟩

/-- The products of an accepted naming have the scheme that was read when it was accepted. That is the
scheme of the naming, which then recognizes them, exactly if the text it was made of is a scheme and
nothing more. -/
theorem recognized_iff_scheme_name {scheme sourceScheme : String} {naming : Naming}
    (accepted : Naming.new scheme sourceScheme = .ok naming) {source target : Uri}
    {name language : String} (encoded : naming.encode source name language = .ok target) :
    (∃ checked, Uri.read (scheme ++ ":/") = .ok checked ∧ target.scheme = checked.scheme) ∧
    (naming.isTarget target = true ↔ IsSchemeName scheme.toList) ∧
    (target.scheme = naming.scheme ↔ IsSchemeName scheme.toList) := by
  obtain ⟨⟨checked, read⟩, rfl⟩ := of_new accepted
  obtain ⟨part, own⟩ := scheme_of_encode encoded
  rw [lowered, String.toList_ofList, schemePart_map_lower] at part own
  have same : target.scheme = lowered scheme ↔ IsSchemeName scheme.toList := by
    constructor
    · intro eq
      rw [eq, lowered, String.toList_ofList] at own
      have lowerName : IsSchemeName (scheme.toList.map lower) := by
        rw [own, isSchemeName_map_lower]
        exact part
      exact isSchemeName_map_lower.mp lowerName
    · intro named
      rw [named.schemePart_eq, named.isScheme.small] at own
      rw [← String.toList_inj, own, lowered, String.toList_ofList]
  refine ⟨⟨checked, read, ?_⟩, ?_, same⟩
  · obtain ⟨-, first⟩ := scheme_of_parse (parse_of_read read)
      (show _ = scheme.toList ++ ':' :: ['/'] by simp)
    rw [← String.toList_inj, own, first]
    simp [lower_lower, Function.comp_def]
  · simp only [isTarget, decide_eq_true_eq]
    exact same

namespace Sample

def derived : Naming := ⟨"derived", "file"⟩

def onDerived : Uri := ⟨"derived", none, "/c:/dir-with-dash/a%20b.mj-target.js", none, none⟩

theorem derived_recognized : Naming.new "Derived" "file" = .ok derived ∧
    derived.encode onDrive "target" "js" = .ok onDerived ∧ IsSchemeName "Derived".toList ∧
    derived.isTarget onDerived = true ∧ onDerived.scheme = derived.scheme := by
  have accepted : Naming.new "Derived" "file" = .ok derived := by cbv
  have encoded : derived.encode onDrive "target" "js" = .ok onDerived := by cbv
  have name : IsSchemeName "Derived".toList := ⟨⟨_, _, rfl, rfl⟩, rfl⟩
  obtain ⟨-, recognized, same⟩ := recognized_iff_scheme_name accepted encoded
  exact ⟨accepted, encoded, name, recognized.mpr name, same.mpr name⟩

/-- A scheme written with the colon that follows it. -/
def withColon : Naming := ⟨"monto:", "file"⟩

def underColon : Uri := ⟨"monto", none, ":/c:/dir-with-dash/a%20b.mj-target.js", none, none⟩

/-- A naming may be accepted and name products that it does not recognize. -/
theorem colon_accepted_unrecognized : Naming.new "monto:" "file" = .ok withColon ∧
    (∃ raw, Uri.read raw = .ok onDrive) ∧
    withColon.encode onDrive "target" "js" = .ok underColon ∧
    withColon.isTarget underColon = false ∧ underColon.scheme ≠ withColon.scheme :=
  ⟨by cbv, isLocalSource_onDrive.read, by cbv, by decide, by decide⟩

end Sample

end Naming

end LinkedViews
