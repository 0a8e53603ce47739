/-!
# Elements

What a document says, without attributes: a tree of elements. The text of an element is the text in
front of its first child.
-/

namespace Actionbook.Xml

inductive Element where
  | make (tag : String) (text : String) (children : List Element)
deriving Repr

namespace Element

instance : Inhabited Element := ⟨.make "" "" []⟩

/-- The name of an element; a namespace stands in braces before it. -/
def tag : Element → String
  | make t _ _ => t

/-- The text in front of the first child. -/
def text : Element → String
  | make _ t _ => t

def children : Element → List Element
  | make _ _ c => c

def child? (e : Element) (tag : String) : Option Element :=
  e.children.find? fun c => c.tag == tag

def childrenTagged (e : Element) (tag : String) : List Element :=
  e.children.filter fun c => c.tag == tag

/-- All children with the tag `inner` of children with the tag `outer`. -/
def grandchildren (e : Element) (outer inner : String) : List Element :=
  (e.childrenTagged outer).flatMap fun c => c.childrenTagged inner

mutual

def same : Element → Element → Bool
  | make t s l, make t' s' l' => t == t' && s == s' && sameAll l l'

/-- Whether two lists of elements are the same. -/
def sameAll : List Element → List Element → Bool
  | [], [] => true
  | e :: l, e' :: l' => same e e' && sameAll l l'
  | _, _ => false

end

mutual

theorem same_iff (e e' : Element) : same e e' = true ↔ e = e' := by
  cases e
  cases e'
  simp [same, sameAll_iff, and_assoc]

theorem sameAll_iff (l l' : List Element) : sameAll l l' = true ↔ l = l' := by
  cases l with
  | nil => cases l' <;> simp [sameAll]
  | cons e l => cases l' <;> simp [sameAll, same_iff e, sameAll_iff l]

end

instance : DecidableEq Element := fun e e' => decidable_of_iff (same e e' = true) (same_iff e e')

end Element

end Actionbook.Xml
