/-!
# Order of texts

* `Text.le` : texts by code points;
* `Text.pairLe`, `Text.listLe` : pairs and lists of texts, the first difference deciding.
-/

namespace Ingress.Text

/-- At most in the order of code points. -/
def le (a b : String) : Bool := decide (¬ b < a)

/-- Pairs of texts by their first, then by their second part. -/
def pairLe (a b : String × String) : Bool :=
  if a.1 = b.1 then le a.2 b.2 else decide (a.1 < b.1)

/-- Lists of pairs by their first difference; a list comes before its extensions. -/
def listLe : List (String × String) → List (String × String) → Bool
  | [], _ => true
  | _ :: _, [] => false
  | a :: as, b :: bs => if a = b then listLe as bs else pairLe a b

end Ingress.Text
