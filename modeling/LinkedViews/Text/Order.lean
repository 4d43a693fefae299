/-! The order of texts by their characters, which is also the order of their bytes. -/
namespace LinkedViews.Text

/-- A text precedes itself and whatever goes on from it; otherwise the first difference decides. -/
def precedes : List Char → List Char → Bool
  | [], _ => true
  | _ :: _, [] => false
  | a :: as, b :: bs => a.toNat < b.toNat || (a == b && precedes as bs)

end LinkedViews.Text
