import Lineage.Tree.Basic

/-!
# Registers

A register lists what the object nodes of an array stand for, with the numbers of
the nodes, and is searched from either side: for the node of a part, and for the
part of a node. Of several nodes for a part, the first counts.

No search passes over the nodes. So a register goes along with all that is done to
them: an object node that is added is entered (`Register.push`), and a node whose
links alone are changed goes by what it is entered as (`Register.modify`). What is
found is then what a search of the nodes would find (`id?_eq`, `key?_eq`).
-/

namespace Lineage

namespace Register

/-- What nodes stand for, as far as they are object nodes, with the numbers of these;
    the first is node `n`. -/
def listing (n : Nat) (keys : List (Option ObjectKey)) : List (ObjectKey × NodeId) :=
  (keys.zipIdx n).filterMap fun (key?, id) => key?.map (·, id)

end Register

/-- The parts of the object nodes in an array. Where there is none yet, it can be
    made from the nodes. -/
class Register (nodes : Array Node) where
  /-- Parts and the numbers of their nodes, in the order of entry. -/
  entries : List (ObjectKey × NodeId)
  entries_eq : entries = Register.listing 0 (nodes.toList.map Node.object?)
deriving Repr

namespace Register

variable {nodes : Array Node}

instance : Register nodes := ⟨_, rfl⟩

/-- The node of a part. -/
def id? (r : Register nodes) (key : ObjectKey) : Option NodeId := r.entries.lookup key

/-- The part of a node. -/
def key? (r : Register nodes) (id : NodeId) : Option ObjectKey :=
  (r.entries.find? (·.2 = id)).map Prod.fst

/-- The register with an entry for a new node without links, if it is an object node. -/
@[reducible]
def push (r : Register nodes) (kind : NodeKind) : Register (nodes.push ⟨kind, []⟩) where
  entries := match kind with
    | .object key => r.entries ++ [(key, nodes.size)]
    | _ => r.entries
  entries_eq := by
    rw [r.entries_eq]
    cases kind <;> simp [listing, List.zipIdx_append, Node.object?]

/-- The same register, for the nodes with other links at one of them. -/
@[reducible]
def modify (r : Register nodes) (id : NodeId) {f : Node → Node}
    (h : ∀ node, (f node).kind = node.kind) : Register (nodes.modify id f) where
  entries := r.entries
  entries_eq := by
    have hkeys : (nodes.modify id f).map Node.object? = nodes.map Node.object? := by
      refine Array.ext (by simp) fun i _ _ => ?_
      simp only [Array.getElem_map, Array.getElem_modify]
      split
      · simp [Node.object?, h]
      · rfl
    rw [r.entries_eq, ← Array.toList_map, ← Array.toList_map, hkeys]

/-- There is one register for each array. -/
instance : Subsingleton (Register nodes) where
  allEq r s := by
    obtain ⟨_, rfl⟩ := r
    obtain ⟨_, rfl⟩ := s
    rfl

/-! ### What is found -/

variable {n : Nat} {key : ObjectKey} {id : NodeId} {keys : List (Option ObjectKey)}

theorem listing_cons (key? : Option ObjectKey) :
    listing n (key? :: keys) = (key?.map (·, n)).toList ++ listing (n + 1) keys := by
  cases key? <;> rfl

theorem lookup_listing :
    (listing n keys).lookup key = (keys.findIdx? (· == some key)).map (· + n) := by
  induction keys generalizing n with
  | nil => rfl
  | cons key? keys ih =>
    rw [listing_cons, List.findIdx?_cons]
    cases key? with
    | none => simpa [Nat.add_assoc, Nat.add_comm 1, Function.comp_def] using ih (n := n + 1)
    | some key' =>
      by_cases h : key' = key
      · simp [h]
      · have hne : (key == key') = false := by simpa using Ne.symm h
        simpa [List.lookup_cons, h, hne, Nat.add_assoc, Nat.add_comm 1, Function.comp_def]
          using ih (n := n + 1)

theorem find?_listing : ((listing n keys).find? (·.2 = id)).map Prod.fst =
    if id < n then none else keys[id - n]?.join := by
  induction keys generalizing n with
  | nil => simp [listing]
  | cons key? keys ih =>
    have hrest := ih (n := n + 1)
    rw [listing_cons]
    by_cases hid : id = n
    · subst hid
      rw [if_pos (Nat.lt_succ_self id)] at hrest
      cases key? <;> simp_all
    · have hhead : ((key?.map (·, n)).toList ++ listing (n + 1) keys).find? (·.2 = id) =
          (listing (n + 1) keys).find? (·.2 = id) := by
        cases key? <;> simp [Ne.symm hid]
      rw [hhead, hrest]
      by_cases hlt : id < n
      · rw [if_pos (Nat.lt_succ_of_lt hlt), if_pos hlt]
      · have hgt : n < id := Nat.lt_of_le_of_ne (Nat.not_lt.1 hlt) (Ne.symm hid)
        rw [if_neg (Nat.not_lt.2 hgt), if_neg hlt,
          ← Nat.succ_pred_eq_of_pos (Nat.sub_pos_of_lt hgt), ← Nat.sub_succ]
        rfl

/-- The part of a node is the one that it stands for. -/
theorem key?_eq (r : Register nodes) : r.key? id = nodes[id]?.bind Node.object? := by
  rw [key?, r.entries_eq, find?_listing, if_neg (Nat.not_lt_zero id), List.getElem?_map,
    Array.getElem?_toList]
  cases nodes[id]? <;> rfl

/-- The node of a part is the first that stands for it. -/
theorem id?_eq (r : Register nodes) :
    r.id? key = nodes.findIdx? (·.kind == .object key) := by
  have hkind (node : Node) : (node.object? == some key) = (node.kind == .object key) := by
    obtain ⟨kind, children⟩ := node
    rw [Bool.eq_iff_iff]
    cases kind <;> simp [Node.object?]
  obtain ⟨nodes⟩ := nodes
  rw [id?, r.entries_eq, lookup_listing, List.findIdx?_map]
  simp [Function.comp_def, hkind]

end Register

end Lineage
