import Mathlib.Logic.Function.Basic

/-!
# Feistel networks

Each round mixes one half into the other one and exchanges the halves. Nothing is asked of the round
function: the rounds are undone by the same rounds with the keys in reverse, between two exchanges.
-/

namespace SkynetEureka.Lib

variable {α κ : Type*} {op : α → α → α} {f : κ → α → α}

/-- One round, with its key -/
def feistelRound (op : α → α → α) (f : κ → α → α) (p : α × α) (k : κ) : α × α :=
  (p.2, op p.1 (f k p.2))

/-- The rounds with these keys -/
def feistel (op : α → α → α) (f : κ → α → α) (keys : List κ) (p : α × α) : α × α :=
  keys.foldl (feistelRound op f) p

theorem feistel_nil (p : α × α) : feistel op f [] p = p := rfl

theorem feistel_cons (k : κ) (keys : List κ) (p : α × α) :
    feistel op f (k :: keys) p = feistel op f keys (feistelRound op f p k) := rfl

theorem feistel_append (keys keys' : List κ) (p : α × α) :
    feistel op f (keys ++ keys') p = feistel op f keys' (feistel op f keys p) :=
  List.foldl_append

/-- A round undoes itself between two exchanges. -/
theorem feistelRound_swap (hop : ∀ a b, op (op a b) b = a) (k : κ) (p : α × α) :
    feistelRound op f (feistelRound op f p k).swap k = p.swap := by
  show (p.2, op (op p.1 (f k p.2)) (f k p.2)) = (p.2, p.1)
  rw [hop]

/-- The rounds with the keys in reverse undo the rounds. -/
theorem feistel_reverse (hop : ∀ a b, op (op a b) b = a) (keys : List κ) (p : α × α) :
    feistel op f keys.reverse (feistel op f keys p).swap = p.swap := by
  induction keys generalizing p with
  | nil => rfl
  | cons k keys ih =>
    rw [List.reverse_cons, feistel_append, feistel_cons k keys, ih]
    exact feistelRound_swap hop k p

end SkynetEureka.Lib
