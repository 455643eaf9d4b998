/-
# Reading the tree that a text spells

The reader of trees turns the tree that a text spells into the one with the members of every
object in ascending order of their keys, the last value of a repeated key counting
(`Json.sorted`).  It does so for all trees that are not nested too deep (`reads_tree`).

Two consequences for what the printer writes: it reads as the sorted tree, and a tree that is
sorted already reads as itself.
-/
import ConfigRegistry.Json.Tree
import ConfigRegistry.Proofs.Json.Structure

namespace ConfigRegistry.Json

/-! ## Sorted trees -/

mutual

/-- The tree with the members of every object in ascending order of their keys. -/
def sorted : Json → Json
  | array items => array (sortedItems items)
  | object members => object (sortedMembers [] members)
  | j => j

/-- The items, each of them sorted. -/
def sortedItems : List Json → List Json
  | [] => []
  | x :: xs => sorted x :: sortedItems xs

/-- The members put one after the other into members that ascend already. -/
def sortedMembers (done : List (String × Json)) : List (String × Json) → List (String × Json)
  | [] => done
  | (k, v) :: ms => sortedMembers (insertEntry k (sorted v) done) ms

end

/-! ## Nesting -/

mutual

/-- How many lists and objects stand inside each other, counting the tree itself. -/
def nesting : Json → Nat
  | array items => nestingItems items + 1
  | object members => nestingMembers members + 1
  | _ => 0

/-- The nesting of the item that is nested deepest. -/
def nestingItems : List Json → Nat
  | [] => 0
  | x :: xs => max (nesting x) (nestingItems xs)

/-- The nesting of the value that is nested deepest. -/
def nestingMembers : List (String × Json) → Nat
  | [] => 0
  | (_, v) :: ms => max (nesting v) (nestingMembers ms)

end

/-! ## The reader -/

namespace Reader

/-- A digit begins a number and nothing else. -/
lemma digit_ne {c : Char} (hc : c.isDigit) :
    c ≠ 'n' ∧ c ≠ 't' ∧ c ≠ 'f' ∧ c ≠ '"' ∧ c ≠ '-' ∧ c ≠ '[' ∧ c ≠ '{' := by
  refine ⟨?_, ?_, ?_, ?_, ?_, ?_, ?_⟩ <;>
    · rintro rfl
      exact absurd hc (by decide)

/-- What the reader of trees does with a number that begins with a digit. -/
lemma gives_tree_of_digit {depth : Nat} {c : Char} {s t rest : List Char} {n : Number}
    (hc : c.isDigit) (hs : afterBlanks s = c :: t) (hn : (numeral false).Gives (c :: t) n rest) :
    (tree (depth + 1)).Gives s (.number n) rest := by
  obtain ⟨hnull, htrue, hfalse, hquote, hminus, hlist, hobject⟩ := digit_ne hc
  rw [tree]
  refine Gives.settle ((gives_peekToken hs).bind ?_)
  -- only the last branch is for digits
  split
  case h_9 d _ _ _ _ _ _ _ h =>
    cases h
    rw [if_pos hc]
    exact hn.map _
  all_goals
    next h =>
      cases h <;> contradiction

mutual

/-- The reader of trees reads a tree that is not nested too deep as the sorted one. -/
theorem reads_tree : (j : Json) → {depth : Nat} → j.nesting < depth → (tree depth).Reads j j.sorted
  | null, depth + 1, _, s, rest, hs => by
    rw [tree]
    refine Gives.settle ((gives_peekToken hs).bind ?_)
    exact gives_word _ _ rest _
  | bool true, depth + 1, _, s, rest, hs => by
    rw [tree]
    refine Gives.settle ((gives_peekToken hs).bind ?_)
    exact gives_word _ _ rest _
  | bool false, depth + 1, _, s, rest, hs => by
    rw [tree]
    refine Gives.settle ((gives_peekToken hs).bind ?_)
    exact gives_word _ _ rest _
  | number n, depth + 1, _, s, rest, hs => by
    rcases hs with ⟨t, hs, hn⟩ | ⟨c, t, hc, hs, hn⟩
    · rw [tree]
      refine Gives.settle ((gives_peekToken hs).bind ?_)
      exact (gives_skip _ _).bind (hn.map _)
    · exact gives_tree_of_digit hc hs hn
  | string a, depth + 1, _, s, rest, ⟨body, hs, hbody⟩ => by
    rw [tree]
    refine Gives.settle ((gives_peekToken hs).bind ?_)
    exact (gives_skip _ _).bind (hbody.map _)
  | array items, depth + 1, hdepth, s, rest, ⟨t, u, hs, hitems, hu⟩ => by
    rw [nesting] at hdepth
    have hread := reads_tree_items items (Nat.lt_of_succ_lt_succ hdepth)
    have hcontent := gives_items_closedBy hread hitems hu
    rw [tree]
    refine Gives.settle ((gives_peekToken hs).bind ?_)
    show Gives (if depth = 0 then _ else _) _ _ _
    rw [if_neg (by omega)]
    exact (gives_skip _ _).bind (hcontent.map _)
  | object members, depth + 1, hdepth, s, rest, ⟨t, u, hs, hmembers, hu⟩ => by
    rw [nesting] at hdepth
    have hcarry := carries_tree_members members (Nat.lt_of_succ_lt_succ hdepth) []
    have hcontent := (gives_members hcarry hmembers hu).closedBy (gives_closeObject rfl)
    rw [tree]
    refine Gives.settle ((gives_peekToken hs).bind ?_)
    show Gives (if depth = 0 then _ else _) _ _ _
    rw [if_neg (by omega)]
    exact (gives_skip _ _).bind (hcontent.map _)

theorem reads_tree_items : (xs : List Json) → {depth : Nat} → nestingItems xs < depth →
    List.Forall₂ (tree depth).Reads xs (sortedItems xs)
  | [], _, _ => .nil
  | x :: xs, depth, hdepth => by
    rw [nestingItems] at hdepth
    exact .cons (reads_tree x (by omega)) (reads_tree_items xs (by omega))

theorem carries_tree_members : (ms : List (String × Json)) → {depth : Nat} →
    nestingMembers ms < depth → (done : List (String × Json)) →
    Carries (fun key ms => do colon; return insertEntry key (← tree depth) ms) ms done
      (sortedMembers done ms)
  | [], _, _, done => .nil done
  | (k, v) :: ms, depth, hdepth, done => by
    rw [nestingMembers] at hdepth
    refine .cons ?_ (carries_tree_members ms (by omega) (insertEntry k v.sorted done))
    intro s t rest hs ht
    exact (gives_colon hs).bind (Gives.map (reads_tree v (by omega) ht) _)

end

end Reader

/-- A printed tree without numbers is parsed as the sorted tree. -/
theorem parse_render {j : Json} (hj : j.Numberless) (hdepth : j.nesting < Reader.depthLimit) :
    parse j.render = .ok j.sorted :=
  (Reader.reads_tree j hdepth).run_render hj

end ConfigRegistry.Json
