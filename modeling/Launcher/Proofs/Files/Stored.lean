import Launcher.Proofs.Files.Look
import Mathlib.Data.List.Nodup

/-!
# Trees that a file system can hold

In a directory no name is there twice, so a walk comes to every node once, by the names that lead to it.
-/

namespace Launcher.FileNode

variable {tree n : FileNode} {names : List String} {x : String}

/-- A file system can hold the tree: names in a directory are different, and each is one that a file can have. -/
structure Stored (tree : FileNode) : Prop where
  distinct : ∀ names children, (names, .dir children) ∈ tree.walk → (children.map Prod.fst).Nodup
  named : ∀ names n, (names, n) ∈ tree.walk → ∀ s ∈ names,
    s ≠ "" ∧ '/' ∉ s.toList ∧ '\x00' ∉ s.toList ∧ s.utf8ByteSize ≤ FileSystem.maxNameSize

theorem Stored.children {children : List (String × FileNode)} (h : Stored (.dir children)) :
    (children.map Prod.fst).Nodup :=
  h.distinct [] children (mem_walk_nil.mpr rfl)

theorem Stored.child {c : FileNode} (h : tree.Stored) (hc : (x, c) ∈ tree.children) : c.Stored where
  distinct names children hn := h.distinct (x :: names) children (mem_walk_cons.mpr ⟨c, hc, hn⟩)
  named names n hn s hs := h.named (x :: names) n (mem_walk_cons.mpr ⟨c, hc, hn⟩) s (List.mem_cons_of_mem x hs)

theorem lookup_of_mem {cs : List (String × FileNode)} (hnodup : (cs.map Prod.fst).Nodup) (h : (x, n) ∈ cs) :
    cs.lookup x = some n := by
  induction cs with
  | nil => cases h
  | cons p cs ih =>
      obtain ⟨y, c⟩ := p
      rw [List.map_cons, List.nodup_cons] at hnodup
      rcases List.mem_cons.mp h with heq | hmem
      · cases heq
        rw [List.lookup_cons_self]
      · have hne : x ≠ y := fun heq => hnodup.1 (List.mem_map.mpr ⟨(x, n), hmem, heq⟩)
        rw [List.lookup_cons, beq_false_of_ne hne]
        exact ih hnodup.2 hmem

/-- A node of the walk is the one that its names lead to. -/
theorem Stored.at?_of_mem_walk (h : tree.Stored) (hn : (names, n) ∈ tree.walk) : tree.at? names = some n := by
  induction names generalizing tree with
  | nil => rw [mem_walk_nil.mp hn, at?]
  | cons x names ih =>
      obtain ⟨c, hc, hn⟩ := mem_walk_cons.mp hn
      have hchild : tree.child? x = some c := by
        cases tree with
        | file content executable => cases hc
        | dir children => exact lookup_of_mem h.children hc
      rw [at?, hchild]
      exact ih (h.child hc) hn

mutual

/-- A walk comes to no place twice. -/
theorem nodup_walk (n : FileNode) (h : n.Stored) : (n.walk.map Prod.fst).Nodup := by
  match n with
  | .file content executable => simp [walk]
  | .dir cs =>
      rw [walk, List.map_cons, List.nodup_cons]
      refine ⟨?_, nodup_walkAll cs h.children fun x c hc => h.child hc⟩
      simp [mem_walkAll]

theorem nodup_walkAll (cs : List (String × FileNode)) (hnodup : (cs.map Prod.fst).Nodup)
    (h : ∀ x c, (x, c) ∈ cs → c.Stored) : ((walkAll cs).map Prod.fst).Nodup := by
  match cs with
  | [] => exact List.nodup_nil
  | (x, c) :: cs =>
      rw [List.map_cons, List.nodup_cons] at hnodup
      have hhere := nodup_walk c (h x c List.mem_cons_self)
      have hrest := nodup_walkAll cs hnodup.2 fun y d hd => h y d (List.mem_cons_of_mem _ hd)
      have hbelow : ((walk c).map fun (names, n) => (x :: names, n)).map Prod.fst =
          ((walk c).map Prod.fst).map (List.cons x) := by
        rw [List.map_map, List.map_map]
        rfl
      rw [walkAll, List.map_append, hbelow]
      refine List.nodup_append.mpr ⟨hhere.map (List.cons_injective), hrest, ?_⟩
      -- What is below a child begins with its name.
      rintro _ ha names hb rfl
      obtain ⟨rest, -, rfl⟩ := List.mem_map.mp ha
      obtain ⟨⟨_, n⟩, hn, rfl⟩ := List.mem_map.mp hb
      obtain ⟨y, _, d, heq, hd, -⟩ := mem_walkAll.mp hn
      cases heq
      exact hnodup.1 (List.mem_map.mpr ⟨(_, d), hd, rfl⟩)

end

end Launcher.FileNode
