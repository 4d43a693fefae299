import LinkedViews.Proofs.Product.Naming
import LinkedViews.Proofs.Store.Consistency
import LinkedViews.Proofs.Uri.Authority

/-! Which products get in each other's way. Of a source only the path is kept in an identifier, so a
product stays until one with the same path, name and language is published, whatever the schemes and
hosts of the two documents are. -/
namespace LinkedViews

open Uri Text

/-- A product of a source that was read, with words for its name and its language. -/
structure Product.Plain (p : Product) : Prop where
  read : ∃ raw, Uri.read raw = .ok p.source
  name : IsWord p.name
  language : IsWord p.language

/-- Products told apart by name, by language or by the paths of their sources. Two paths that both
begin with two slashes do not count: what follows would be read as an authority. -/
def Product.Apart (p q : Product) : Prop :=
  (p.source.path ≠ q.source.path ∧
    ¬(Slashed p.source.path.toList ∧ Slashed q.source.path.toList)) ∨
  p.name ≠ q.name ∨ p.language ≠ q.language

theorem Product.Plain.path {p : Product} (plain : p.Plain) :
    Rooted isSlash p.source.path.toList ∨ Opaque p.source.path.toList := by
  obtain ⟨raw, read⟩ := plain.read
  exact path_of_parse (parse_of_read read)

section Ending

variable {name language : String} (word : IsWord name) (words : IsWord language)

include word words

theorem marks_ending : ∀ c ∈ ending name language, c ∉ [':', '@', ']'] := by
  intro c member mark
  simp only [List.mem_cons, List.not_mem_nil, or_false] at mark
  have among : c ∈ nameMarks ∧ c ≠ '.' ∧ c ≠ '-' := by
    rcases mark with rfl | rfl | rfl <;> decide
  rw [ending] at member
  rcases List.mem_cons.mp member with dash | inside
  · exact among.2.2 dash
  · exact mark_not_mem word words among.1 among.2.1 inside

/-- A text has one ending at most. -/
theorem ending_of_suffix {name' language' : String} (word' : IsWord name')
    (words' : IsWord language') {text : List Char} (ends : ending name language <:+ text)
    (ends' : ending name' language' <:+ text) : name = name' ∧ language = language' := by
  obtain ⟨front, rfl⟩ := ends
  obtain ⟨front', eq⟩ := ends'
  exact (append_ending_inj word words word' words' eq.symm).2

/-- An authority is read after the scheme, and the ending stands at the end of the path or, where
nothing is left for one, of the host. -/
theorem Naming.encode_of_slashed {naming : Naming} {source target : Uri}
    (isScheme : IsScheme naming.scheme.toList)
    (general : SchemeKind.of naming.scheme.toList = .general)
    (rooted : Rooted isSlash source.path.toList) (slashed : Slashed source.path.toList)
    (encoded : naming.encode source name language = .ok target) :
    ∃ named, target.authority = some named ∧ (ending name language <:+ target.path.toList ∨
      target.path.toList = [] ∧ ending name language <:+ named.host.toList) := by
  obtain ⟨authority, path, read, rfl⟩ :=
    assembled_of_encode isScheme general rooted word words encoded
  obtain ⟨rest, eq⟩ := slashed
  rw [eq, List.cons_append, List.cons_append] at read
  obtain ⟨named, hosted, placed⟩ := suffix_readGeneral (plain_ending word words)
    (marks_ending word words) rfl (List.suffix_append rest _) read
  refine ⟨named, hosted, ?_⟩
  simpa [assemble] using placed

end Ending

namespace Naming

variable {naming : Naming} (isScheme : IsScheme naming.scheme.toList)
  (general : SchemeKind.of naming.scheme.toList = .general)

include isScheme general

theorem target_of_unslashed {p : Product} (plain : p.Plain) (single : ¬Slashed p.source.path.toList) :
    p.target naming = .ok (naming.plainTarget p.source.path.toList p.name p.language) :=
  encode_of_unslashed isScheme general plain.path single plain.name plain.language

theorem target_of_slashed {p : Product} {target : Uri} (plain : p.Plain)
    (slashed : Slashed p.source.path.toList) (named : p.target naming = .ok target) :
    ∃ authority, target.authority = some authority ∧
      (ending p.name p.language <:+ target.path.toList ∨
        target.path.toList = [] ∧ ending p.name p.language <:+ authority.host.toList) := by
  have rooted : Rooted isSlash p.source.path.toList := by
    rcases plain.path with rooted | opaquePath
    · exact rooted
    · obtain ⟨rest, eq⟩ := slashed
      exact absurd (by rw [eq]; rfl) opaquePath.unrooted
  exact encode_of_slashed plain.name plain.language isScheme general rooted slashed named

/-- Two products under one identifier have the same name and language, and paths that cannot be told
apart. -/
theorem not_apart_of_target_eq {p q : Product} {target : Uri} (plain : p.Plain) (plain' : q.Plain)
    (named : p.target naming = .ok target) (named' : q.target naming = .ok target) :
    ¬p.Apart q := by
  by_cases slashed : Slashed p.source.path.toList <;>
    by_cases slashed' : Slashed q.source.path.toList
  case pos =>
    obtain ⟨authority, hosted, placed⟩ := target_of_slashed isScheme general plain slashed named
    obtain ⟨authority', hosted', placed'⟩ :=
      target_of_slashed isScheme general plain' slashed' named'
    obtain rfl := Option.some.inj (hosted.symm.trans hosted')
    have same : p.name = q.name ∧ p.language = q.language := by
      have nonempty (name language : String) (none : target.path.toList = []) :
          ¬ending name language <:+ target.path.toList := by
        intro ends
        rw [none, List.suffix_nil] at ends
        exact List.cons_ne_nil _ _ ends
      rcases placed with inPath | ⟨none, inHost⟩ <;> rcases placed' with inPath' | ⟨none', inHost'⟩
      · exact ending_of_suffix plain.name plain.language plain'.name plain'.language inPath inPath'
      · exact absurd inPath (nonempty _ _ none')
      · exact absurd inPath' (nonempty _ _ none)
      · exact ending_of_suffix plain.name plain.language plain'.name plain'.language inHost inHost'
    rintro (⟨-, apart⟩ | differ | differ)
    · exact apart ⟨slashed, slashed'⟩
    · exact differ same.1
    · exact differ same.2
  case neg =>
    obtain ⟨authority, hosted, -⟩ := target_of_slashed isScheme general plain slashed named
    rw [target_of_unslashed isScheme general plain' slashed'] at named'
    obtain rfl := Except.ok.inj named'
    cases hosted
  case pos =>
    obtain ⟨authority, hosted, -⟩ := target_of_slashed isScheme general plain' slashed' named'
    rw [target_of_unslashed isScheme general plain slashed] at named
    obtain rfl := Except.ok.inj named
    cases hosted
  case neg =>
    rw [target_of_unslashed isScheme general plain slashed] at named
    rw [target_of_unslashed isScheme general plain' slashed'] at named'
    have texts := congrArg (fun u : Uri => u.path.toList)
      (Except.ok.inj (named.trans named'.symm))
    simp only [plainTarget, String.toList_ofList] at texts
    obtain ⟨path, name, language⟩ := append_ending_inj plain.name plain.language plain'.name
      plain'.language texts
    rintro (⟨differ, -⟩ | differ | differ)
    · exact differ (String.toList_inj.mp path)
    · exact differ name
    · exact differ language

end Naming

namespace Store

theorem target_of_saved? {naming : Naming} {p : Product} {target : Uri}
    (saved : (Operation.save p).saved? naming = some target) : p.target naming = .ok target := by
  obtain ⟨product, same, named, -⟩ :=
    find?_perform_of_saved (s := new naming) (o := .save p) saved
  cases same
  exact named

/-- What is stored under an identifier stays the same product as long as nothing is saved there. -/
theorem product_run_of_unsaved {naming : Naming} {history after : List Operation} {target : Uri}
    {p : Product} (unsaved : ∀ o ∈ after, o.saved? naming ≠ some target)
    (stored : (((new naming).run history).find? target).map (·.product) = some p) :
    (((new naming).run (history ++ after)).find? target).map (·.product) = some p := by
  induction after using List.reverseRecOn with
  | nil => simpa using stored
  | append_singleton after o ih =>
    have before := ih fun o among => unsaved o (List.mem_append_left _ among)
    have own : o.saved? ((new naming).run (history ++ after)).naming ≠ some target := by
      rw [naming_run, naming_new]
      exact unsaved o (by simp)
    rw [← List.append_assoc, run_concat]
    rcases find?_perform_of_unsaved own with same | ⟨old, present, armed⟩
    · rw [same]
      exact before
    · rw [present] at before
      rw [armed]
      exact before

/-- A save stays in place, and linked to its document, for as long as only products with another
path, name or language are saved. -/
theorem product_kept_among_others {naming : Naming} {before after : List Operation} {p : Product}
    {target : Uri} (isScheme : IsScheme naming.scheme.toList)
    (general : SchemeKind.of naming.scheme.toList = .general) (plain : p.Plain)
    (saved : (Operation.save p).saved? naming = some target)
    (others : ∀ q, .save q ∈ after → ((Operation.save q).saved? naming).isSome → q.Plain ∧ p.Apart q) :
    let s := (new naming).run (before ++ .save p :: after)
    target ∈ s.linkedTargets p.source ∧ (s.get target).product = p := by
  intro s
  have named := target_of_saved? saved
  have here : (((new naming).run (before ++ [.save p])).find? target).map (·.product) = some p := by
    have own : (Operation.save p).saved? ((new naming).run before).naming = some target := by
      rw [naming_run, naming_new]
      exact saved
    obtain ⟨product, same, -, found⟩ := find?_perform_of_saved own
    cases same
    rw [run_concat, found]
    rfl
  have unsaved : ∀ o ∈ after, o.saved? naming ≠ some target := by
    intro o among again
    obtain ⟨q, rfl, named', -⟩ := find?_perform_of_saved (s := new naming) again
    obtain ⟨plain', apart⟩ := others q among (by rw [again]; rfl)
    exact Naming.not_apart_of_target_eq isScheme general plain plain' named named' apart
  have kept := product_run_of_unsaved unsaved here
  rw [List.append_assoc, List.singleton_append] at kept
  obtain ⟨stored, found, rfl⟩ := Option.map_eq_some_iff.mp kept
  constructor
  · exact mem_linkedTargets.mpr ⟨stored, found, rfl, rfl, rfl⟩
  · rw [get, found]
    rfl

theorem saved?_of_target {naming : Naming} {p : Product} {target : Uri} (valid : p.validate = .ok ())
    (named : p.target naming = .ok target) : (Operation.save p).saved? naming = some target := by
  have result : (new naming).save p =
      .ok (target, ((new naming).install target p).announce target) :=
    save_eq_ok_iff.mpr ⟨valid, named, rfl⟩
  simp [Operation.saved?, result, Except.toOption]

/-- Products of different documents that are saved one after the other, of which the first is then
found no more. -/
def Replaces (naming : Naming) (p q : Product) : Prop :=
  ¬q.source.SameDocument p.source ∧ ∃ target, (Operation.save p).saved? naming = some target ∧
    (Operation.save q).saved? naming = some target ∧
    target ∉ ((new naming).run [.save p, .save q]).linkedTargets p.source ∧
    (((new naming).run [.save p, .save q]).get target).product = q

theorem replaces_of_target_eq {naming : Naming} {p q : Product} {target : Uri}
    (valid : p.validate = .ok ()) (valid' : q.validate = .ok ())
    (named : p.target naming = .ok target) (named' : q.target naming = .ok target)
    (differ : ¬q.source.SameDocument p.source) : Replaces naming p q := by
  have saved' := saved?_of_target valid' named'
  have found : ((new naming).run [.save p, .save q]).find? target = some ⟨q, .build q.rangeMap,
      .unarmed, ((new naming).perform (.save p)).generation.next⟩ := by
    have own : (Operation.save q).saved? ((new naming).perform (.save p)).naming = some target := by
      rw [naming_perform]
      exact saved'
    obtain ⟨product, same, -, found⟩ := find?_perform_of_saved own
    cases same
    exact found
  refine ⟨differ, target, saved?_of_target valid named, saved', fun linked => ?_,
    by rw [get, found]; rfl⟩
  obtain ⟨stored, present, same⟩ := mem_linkedTargets.mp linked
  obtain rfl := Option.some.inj (found.symm.trans present)
  exact differ same

namespace Shared

def product (scheme : String) (authority : Option Authority) (path : String) : Product :=
  ⟨⟨scheme, authority, path, none, none⟩, "target", "js", scheme, []⟩

theorem plain_product {scheme path raw : String} {authority : Option Authority}
    (read : Uri.read raw = .ok ⟨scheme, authority, path, none, none⟩) :
    (product scheme authority path).Plain :=
  ⟨⟨raw, read⟩, (by decide : IsWord "target"), (by decide : IsWord "js")⟩

def onDisk : Product := product "file" (some .none) "/a.mj"

def untitled : Product := product "untitled" none "/a.mj"

/-- The same path without its slash. -/
def unrooted : Product := product "untitled" none "a.mj"

def onHost : Product := product "ssh" (some ⟨"", "h", none⟩) "/a.mj"

def onPort : Product := product "ssh" (some ⟨"", "h", none⟩) "//b:80/a.mj"

/-- A port is a number, so the zero is lost. -/
def onPaddedPort : Product := product "ssh" (some ⟨"", "h", none⟩) "//b:080/a.mj"

def spaced : Product := product "untitled" none "a b"

def escaped : Product := product "untitled" none "a%20b"

theorem plain_onDisk : onDisk.Plain :=
  plain_product (show Uri.read "file:/a.mj" = _ by cbv)

theorem plain_untitled : untitled.Plain :=
  plain_product (show Uri.read "untitled:/a.mj" = _ by cbv)

theorem plain_unrooted : unrooted.Plain :=
  plain_product (show Uri.read "untitled:a.mj" = _ by cbv)

theorem plain_onHost : onHost.Plain :=
  plain_product (show Uri.read "ssh://h/a.mj" = _ by cbv)

theorem plain_onPort : onPort.Plain :=
  plain_product (show Uri.read "ssh://h//b:80/a.mj" = _ by cbv)

theorem plain_onPaddedPort : onPaddedPort.Plain :=
  plain_product (show Uri.read "ssh://h//b:080/a.mj" = _ by cbv)

theorem plain_spaced : spaced.Plain :=
  plain_product (show Uri.read "untitled:a b" = _ by cbv)

theorem plain_escaped : escaped.Plain :=
  plain_product (show Uri.read "untitled:a%20b" = _ by cbv)

/-- The scheme of a document and its host are no part of an identifier. Nor are all paths kept
apart: two slashes begin an authority, local files have a root in any case, and a scheme that was
taken without being one can turn the path into a fragment. -/
theorem documents_replace_each_other :
    Naming.new "monto" "file" = .ok .default ∧ Naming.new "file" "file" = .ok ⟨"file", "file"⟩ ∧
    Naming.new "x:#" "file" = .ok ⟨"x:#", "file"⟩ ∧
    (∀ p ∈ [onDisk, untitled, unrooted, onHost, onPort, onPaddedPort, spaced, escaped], p.Plain) ∧
    Replaces .default onDisk untitled ∧ Replaces .default onHost onDisk ∧
    Replaces .default onPort onPaddedPort ∧ Replaces ⟨"file", "file"⟩ onDisk unrooted ∧
    Replaces ⟨"x:#", "file"⟩ spaced escaped := by
  refine ⟨by cbv, by cbv, by cbv, ?_, ?_, ?_, ?_, ?_, ?_⟩
  · simp only [List.forall_mem_cons, List.not_mem_nil, false_implies, implies_true, and_true]
    exact ⟨plain_onDisk, plain_untitled, plain_unrooted, plain_onHost, plain_onPort,
      plain_onPaddedPort, plain_spaced, plain_escaped⟩
  · exact replaces_of_target_eq rfl rfl
      (show _ = Except.ok ⟨"monto", none, "/a.mj-target.js", none, none⟩ by cbv) (by cbv) (by decide)
  · exact replaces_of_target_eq rfl rfl
      (show _ = Except.ok ⟨"monto", none, "/a.mj-target.js", none, none⟩ by cbv) (by cbv) (by decide)
  · exact replaces_of_target_eq rfl rfl
      (show _ = Except.ok ⟨"monto", some ⟨"", "b", some 80⟩, "/a.mj-target.js", none, none⟩ by cbv)
      (by cbv) (by decide)
  · exact replaces_of_target_eq rfl rfl
      (show _ = Except.ok ⟨"file", some .none, "/a.mj-target.js", none, none⟩ by cbv) (by cbv)
      (by decide)
  · exact replaces_of_target_eq rfl rfl
      (show _ = Except.ok ⟨"x", none, "", none, some ":a%20b-target.js"⟩ by cbv) (by cbv) (by decide)

theorem saved_onDisk : (Operation.save onDisk).saved? .default =
    some ⟨"monto", none, "/a.mj-target.js", none, none⟩ :=
  saved?_of_target rfl (by cbv)

/-- A product with another path comes after it, and then its own selection. -/
theorem onDisk_kept :
    let s := (new .default).run ([.save untitled] ++ .save onDisk :: [.save onPort,
      .selection ⟨"monto", none, "/a.mj-target.js", none, none⟩, .save spaced])
    ⟨"monto", none, "/a.mj-target.js", none, none⟩ ∈ s.linkedTargets onDisk.source ∧
    (s.get ⟨"monto", none, "/a.mj-target.js", none, none⟩).product = onDisk := by
  have notSlashed : ¬Slashed onDisk.source.path.toList := by
    rintro ⟨rest, eq⟩
    simp [onDisk, product] at eq
  refine product_kept_among_others Naming.isScheme_default rfl plain_onDisk saved_onDisk ?_
  intro q among _
  simp only [List.mem_cons, Operation.save.injEq, reduceCtorEq, List.not_mem_nil, or_false,
    false_or] at among
  rcases among with rfl | rfl
  · exact ⟨plain_onPort, .inl ⟨by decide, fun both => notSlashed both.1⟩⟩
  · exact ⟨plain_spaced, .inl ⟨by decide, fun both => notSlashed both.1⟩⟩

end Shared

end Store

end LinkedViews
