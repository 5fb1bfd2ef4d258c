namespace BuildFeed

class Coded (α : Type) where
  title : String
  all : List α
  code : α → Int32
  mem_all : ∀ a, a ∈ all
  code_inj : ∀ {a b}, code a = code b → a = b

namespace Coded

def ofCode? {α : Type} [Coded α] (n : Int32) : Option α :=
  (all (α := α)).find? (code · = n)

theorem code_of_ofCode? {α : Type} [Coded α] {n : Int32} {a : α} (h : ofCode? n = some a) :
    code a = n := by
  simpa using List.find?_some h

theorem ofCode?_code {α : Type} [Coded α] (a : α) : ofCode? (code a) = some a := by
  unfold ofCode?
  cases h : (all (α := α)).find? (code · = code a) with
  | none => simpa using List.find?_eq_none.1 h a (mem_all a)
  | some b => rw [code_inj (code_of_ofCode? (α := α) (a := b) h)]

end Coded

end BuildFeed
