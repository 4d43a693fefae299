import LinkedViews.Proofs.Product.Naming
import LinkedViews.Proofs.Uri.Slashes

/-! The shape of identifiers. Whatever document a product is of, its identifier is scheme, path, dash,
name, dot and language, and no segment of the path is read once more. A path that begins with two
slashes is the exception: its first segment is read as an authority and lost to the path. -/
namespace LinkedViews

open Uri Text

namespace Naming

/-- An identifier that is what its naming makes of the source's path, and nothing more. -/
structure Shaped (naming : Naming) (source : Uri) (name language : String) (target : Uri) : Prop where
  scheme : target.scheme = naming.scheme
  unhosted : target.host? = none
  query : target.query = none
  fragment : target.fragment = none
  path : target.path = source.path ++ "-" ++ name ++ "." ++ language

section Shape

variable {naming : Naming} {source target : Uri} {name language : String} (word : IsWord name)
  (words : IsWord language)

theorem shaped_plainTarget (naming : Naming) (source : Uri) (name language : String) :
    naming.Shaped source name language (naming.plainTarget source.path.toList name language) where
  scheme := rfl
  unhosted := rfl
  query := rfl
  fragment := rfl
  path := by simp [plainTarget, ending, ← String.toList_inj]

include word words

theorem count_ending : (ending name language).count '/' = 0 := by
  apply List.count_eq_zero_of_not_mem
  intro member
  exact absurd (plain_ending word words '/' member).2 (by decide)

/-- The segment behind the two slashes is no part of the path. -/
theorem path_of_slashed (isScheme : IsScheme naming.scheme.toList)
    (general : SchemeKind.of naming.scheme.toList = .general)
    (rooted : Rooted isSlash source.path.toList) (slashed : Slashed source.path.toList)
    (encoded : naming.encode source name language = .ok target) :
    target.authority.isSome = true ∧
      target.path.toList.count '/' < source.path.toList.count '/' := by
  obtain ⟨authority, path, read, rfl⟩ :=
    assembled_of_encode isScheme general rooted word words encoded
  have total : (source.path.toList ++ ending name language).count '/' =
      source.path.toList.count '/' := by
    rw [List.count_append, count_ending word words, Nat.add_zero]
  obtain ⟨rest, eq⟩ := slashed
  rw [← total]
  rw [eq, List.cons_append, List.cons_append] at read ⊢
  simpa [assemble] using count_readGeneral_lt read

/-- Exactly the paths that begin with no second slash are kept as they are. Scheme, query and fragment
of an identifier are as they should be in any case. -/
theorem shaped_iff_not_slashed (read : ∃ raw, Uri.read raw = .ok source)
    (begins : source.path.toList.head? = some '/') :
    ((∃ target, default.encode source name language = .ok target ∧
        default.Shaped source name language target) ↔ ¬Slashed source.path.toList) ∧
    ∀ target, default.encode source name language = .ok target →
      target.scheme = "monto" ∧ target.query = none ∧ target.fragment = none ∧
      (Slashed source.path.toList → target.authority.isSome = true ∧
        target.path.toList.count '/' < source.path.toList.count '/') := by
  obtain ⟨raw, read⟩ := read
  have rooted : Rooted isSlash source.path.toList := by
    apply (path_of_parse (parse_of_read read)).resolve_right
    intro opaquePath
    exact opaquePath.unrooted begins
  refine ⟨⟨?_, fun single => ?_⟩, fun target encoded => ?_⟩
  · rintro ⟨target, encoded, shaped⟩ slashed
    have fewer := (path_of_slashed word words isScheme_default rfl rooted slashed encoded).2
    have kept : target.path.toList = source.path.toList ++ ending name language := by
      rw [shaped.path]
      simp [ending]
    rw [kept, List.count_append] at fewer
    omega
  · exact ⟨_, encode_of_unslashed isScheme_default rfl (.inl rooted) single word words,
      shaped_plainTarget _ _ _ _⟩
  · have lost (slashed : Slashed source.path.toList) :=
      path_of_slashed word words isScheme_default rfl rooted slashed encoded
    obtain ⟨authority, path, -, rfl⟩ :=
      assembled_of_encode isScheme_default rfl rooted word words encoded
    exact ⟨rfl, rfl, rfl, lost⟩

end Shape

namespace Sample

def crowded : Uri :=
  ⟨"http", some ⟨"u", "h", some 8080⟩, "/c://[b]|%2f/%2E.mj", some "q=1", some "f"⟩

theorem read_crowded :
    Uri.read "HTTP://u@h:8080/x/../c:/..//[b]|%2f/./%2E.mj?q=1#f" = .ok crowded := by cbv

theorem crowded_shaped : ¬Slashed crowded.path.toList ∧
    ∃ target, default.encode crowded "target" "js" = .ok target ∧
      default.Shaped crowded "target" "js" target := by
  have single : ¬Slashed crowded.path.toList := by
    rintro ⟨rest, eq⟩
    simp [crowded] at eq
  exact ⟨single, (shaped_iff_not_slashed (by decide : IsWord "target") (by decide : IsWord "js")
    ⟨_, read_crowded⟩ rfl).1.mpr single⟩

def doubled : Uri := ⟨"http", some ⟨"", "h", none⟩, "//a/b.mj", none, none⟩

def doubledPort : Uri := ⟨"http", some ⟨"", "h", none⟩, "//a:b/c.mj", none, none⟩

/-- A first segment that is empty makes the second a host, or no identifier at all. -/
theorem doubled_unshaped :
    Uri.read "http://h//a/b.mj" = .ok doubled ∧ Uri.read "http://h//a:b/c.mj" = .ok doubledPort ∧
    doubled.path.toList.head? = some '/' ∧ doubledPort.path.toList.head? = some '/' ∧
    IsWord "target" ∧ IsWord "js" ∧
    default.encode doubled "target" "js" =
      .ok ⟨"monto", some ⟨"", "a", none⟩, "/b.mj-target.js", none, none⟩ ∧
    (¬∃ target, default.encode doubled "target" "js" = .ok target ∧
      default.Shaped doubled "target" "js" target) ∧
    default.encode doubledPort "target" "js" =
      .error (.invalidUri "monto://a:b/c.mj-target.js" .invalidPort) := by
  have encoded : default.encode doubled "target" "js" =
      .ok ⟨"monto", some ⟨"", "a", none⟩, "/b.mj-target.js", none, none⟩ := by cbv
  refine ⟨by cbv, by cbv, rfl, rfl, by decide, by decide, encoded, ?_, by cbv⟩
  rintro ⟨target, named, shaped⟩
  obtain rfl := Except.ok.inj (encoded.symm.trans named)
  exact absurd shaped.unhosted (by decide)

end Sample

end Naming

end LinkedViews
