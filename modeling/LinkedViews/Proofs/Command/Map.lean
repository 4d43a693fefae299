import LinkedViews.Command.Map
import LinkedViews.Proofs.Store.Operations
import LinkedViews.Proofs.Wire.Payload

/-! Product files. The payload alone and the notification that carries it are read as the same
publication, so an offset is mapped alike through both. -/
namespace LinkedViews

namespace Publication

theorem ofFile_write (p : Publication) : ofFile (Utf8.encode p.write) = .ok p := by
  rw [ofFile, parse_write]

/-- What is no payload is read as a message. -/
theorem ofFile_encode (p : Publication) : ofFile (Message.publish p).encode = .ok p := by
  cases bare : parse (Message.publish p).encode with
  | ok q => exact absurd bare (Message.payload_parse_encode p q)
  | error fault => rw [ofFile, bare, Message.parse_encode_publish]

theorem load_eq {files : Files} {path : String} {bytes : Bytes} (holds : files path = .ok bytes) :
    load files path = ofFile bytes := by
  rw [load, holds]

end Publication

namespace MapCommand

/-- The store of the command holds the one product, under an index of its own pairs. -/
theorem answer_eq {config : Config} {p : Publication} {naming : Naming} {product : Product}
    {target : Uri} (named : config.naming = .ok naming) (valid : p.toProduct = .ok product)
    (placed : product.target naming = .ok target) (offset : UInt64) (direction : Direction) :
    answer config p offset direction =
      .ok (line target direction offset ((RangeIndex.build p.rangeMap).find? direction offset)) := by
  obtain ⟨source, -, ordered, rfl⟩ := Publication.toProduct_eq_ok_iff.mp valid
  have accepted : (p.withSource source).validate = .ok () := Product.validate_eq_ok_iff.mpr ordered
  let store := ((Store.new naming).install target (p.withSource source)).announce target
  have saved : (Store.new naming).save (p.withSource source) = .ok (target, store) :=
    Store.save_eq_ok_iff.mpr ⟨accepted, placed, rfl⟩
  have index : (store.get target).index = .build p.rangeMap := by
    rw [Store.get, (Store.saved_of_save saved).here]
    rfl
  simp only [answer, valid, named, saved, index, Except.mapError, bind, Except.bind, pure,
    Except.pure]

/-- Both forms of a product file hold the same publication. The answer of the command is the same for
both, whatever the configuration, and if the product is valid and has an identifier, it is the span
that an index of its pairs leads to, or that there is none. -/
theorem both_forms_answer_alike (p : Publication) :
    Publication.ofFile (Utf8.encode p.write) = .ok p ∧
    Publication.ofFile (Message.publish p).encode = .ok p ∧
    ∀ (files : Files) bare whole, files bare = .ok (Utf8.encode p.write) →
      files whole = .ok (Message.publish p).encode →
      Publication.load files bare = .ok p ∧ Publication.load files whole = .ok p ∧
      ∀ config offset direction,
        run config files bare offset direction = run config files whole offset direction ∧
        ∀ naming product target, config.naming = .ok naming → p.toProduct = .ok product →
          product.target naming = .ok target →
          run config files bare offset direction = .ok
            (s!"{target} {direction.text} {offset.toNat} -> " ++
              (((RangeIndex.build p.rangeMap).find? direction offset).elim "unmapped" fun pair =>
                (direction.destination pair).text)) := by
  refine ⟨p.ofFile_write, p.ofFile_encode, fun files bare whole bares wholes => ?_⟩
  have loaded : Publication.load files bare = .ok p :=
    (Publication.load_eq bares).trans p.ofFile_write
  have loaded' : Publication.load files whole = .ok p :=
    (Publication.load_eq wholes).trans p.ofFile_encode
  refine ⟨loaded, loaded', fun config offset direction => ⟨?_, ?_⟩⟩
  · rw [run, run, loaded, loaded']
  · intro naming product target named valid placed
    have answered := answer_eq named valid placed offset direction
    rw [run, loaded]
    refine answered.trans ?_
    unfold line
    cases (RangeIndex.build p.rangeMap).find? direction offset <;> rfl

namespace Sample

def nested : Publication :=
  ⟨"file:/n.mj", "out", "txt", "", [⟨⟨2, 4⟩, ⟨5, 8⟩⟩, ⟨⟨0, 10⟩, ⟨0, 20⟩⟩]⟩

def product : Product :=
  ⟨⟨"file", some .none, "/n.mj", none, none⟩, nested.name, nested.language, nested.content,
    nested.rangeMap⟩

def target : Uri := ⟨"monto", none, "/n.mj-out.txt", none, none⟩

def files : Files := .ofList [("bare", .ok (Utf8.encode nested.write)),
  ("whole", .ok (Message.publish nested).encode)]

/-- Forward the larger span of the product governs. -/
theorem nested_answers_alike :
    files "bare" = .ok (Utf8.encode nested.write) ∧
    files "whole" = .ok (Message.publish nested).encode ∧
    Config.naming {} = .ok ⟨"monto", "file"⟩ ∧ nested.toProduct = .ok product ∧
    product.target ⟨"monto", "file"⟩ = .ok target ∧
    run {} files "bare" 3 .forward = .ok "monto:/n.mj-out.txt forward 3 -> [0, 20)" ∧
    run {} files "whole" 3 .forward = .ok "monto:/n.mj-out.txt forward 3 -> [0, 20)" ∧
    run {} files "bare" 10 .forward = .ok "monto:/n.mj-out.txt forward 10 -> unmapped" := by
  have bare : files "bare" = .ok (Utf8.encode nested.write) := rfl
  have whole : files "whole" = .ok (Message.publish nested).encode := rfl
  have named : Config.naming {} = .ok ⟨"monto", "file"⟩ := by cbv
  have valid : nested.toProduct = .ok product := by cbv
  have placed : product.target ⟨"monto", "file"⟩ = .ok target := by cbv
  obtain ⟨-, -, answers⟩ := (both_forms_answer_alike nested).2.2 files "bare" "whole" bare whole
  have governed := (answers {} 3 .forward).2 _ _ _ named valid placed
  have beyond := (answers {} 10 .forward).2 _ _ _ named valid placed
  have outer : (RangeIndex.build nested.rangeMap).find? .forward 3 =
      some ⟨⟨0, 10⟩, ⟨0, 20⟩⟩ := by cbv
  have none : (RangeIndex.build nested.rangeMap).find? .forward 10 = none := by cbv
  have inside : run {} files "bare" 3 .forward =
      .ok "monto:/n.mj-out.txt forward 3 -> [0, 20)" := by
    rw [governed, outer]
    cbv
  refine ⟨bare, whole, named, valid, placed, inside, ?_, ?_⟩
  · rw [← (answers {} 3 .forward).1, inside]
  · rw [beyond, none]
    cbv

end Sample

end MapCommand

end LinkedViews
