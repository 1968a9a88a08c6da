import Mathlib.Data.List.Basic
import Mathlib.Data.List.Nodup

/-!
# AVL trees

Binary trees that keep a balance in every node, places in them, and the rotations. What holds on either side
of a node is said once, for a `Side`.
-/

namespace HvmlFpm.Library

inductive Side
  | left | right
deriving DecidableEq

namespace Side
variable {α β : Type}

def flip : Side → Side
  | left => right
  | right => left

def pick (s : Side) (x y : α) : Side → α := fun side => if side = s then x else y

/-- How far a balance leans to this side. -/
def tilt : Side → Int → Int
  | left, balance => -balance
  | right, balance => balance

def toward : Side → Int
  | left => -1
  | right => 1

@[simp] theorem flip_flip (s : Side) : s.flip.flip = s := by cases s <;> rfl

@[simp] theorem flip_ne (s : Side) : s.flip ≠ s := by cases s <;> decide

@[simp] theorem ne_flip (s : Side) : s ≠ s.flip := by cases s <;> decide

theorem eq_or_eq_flip (s side : Side) : side = s ∨ side = s.flip := by
  cases s <;> cases side <;> simp [flip]

@[simp] theorem pick_self (s : Side) (x y : α) : s.pick x y s = x := if_pos rfl

@[simp] theorem pick_flip (s : Side) (x y : α) : s.pick x y s.flip = y := if_neg s.flip_ne

@[simp] theorem flip_pick (s : Side) (x y : α) : s.flip.pick x y = s.pick y x := by
  funext side
  cases s <;> cases side <;> rfl

theorem pick_eta (s : Side) (f : Side → α) : s.pick (f s) (f s.flip) = f := by
  funext side
  rcases s.eq_or_eq_flip side with rfl | rfl
  · exact pick_self ..
  · exact pick_flip ..

theorem exists_pick (s : Side) (f : Side → α) : ∃ x y, f = s.pick x y := ⟨f s, f s.flip, (s.pick_eta f).symm⟩

theorem map_pick (s : Side) (f : α → β) (x y : α) : (fun side => f (s.pick x y side)) = s.pick (f x) (f y) := by
  funext side
  rcases s.eq_or_eq_flip side with rfl | rfl <;> simp

theorem forall_pick (s : Side) {P : α → Prop} {x y : α} : (∀ side, P (s.pick x y side)) ↔ P x ∧ P y := by
  constructor
  · intro all
    exact ⟨by simpa using all s, by simpa using all s.flip⟩
  · rintro ⟨first, second⟩ side
    rcases s.eq_or_eq_flip side with rfl | rfl
    · simpa using first
    · simpa using second

@[simp] theorem update_pick (s : Side) (x y z : α) : Function.update (s.pick x y) s z = s.pick z y := by
  funext side
  rcases s.eq_or_eq_flip side with rfl | rfl <;> simp

@[simp] theorem update_pick_flip (s : Side) (x y z : α) : Function.update (s.pick x y) s.flip z = s.pick x z := by
  funext side
  rcases s.eq_or_eq_flip side with rfl | rfl <;> simp [Function.update_of_ne]

@[simp] theorem tilt_flip (s : Side) (balance : Int) : s.flip.tilt balance = -s.tilt balance := by
  cases s <;> simp [flip, tilt]

theorem eq_toward {s : Side} {balance : Int} : balance = s.toward ↔ s.tilt balance = 1 := by
  cases s with
  | left =>
      simp only [toward, tilt]
      omega
  | right => exact Iff.rfl

theorem eq_flip_toward {s : Side} {balance : Int} : balance = s.flip.toward ↔ s.tilt balance = -1 := by
  cases s <;> simp [flip, toward, tilt]

theorem tilt_add_toward (s : Side) (balance : Int) : s.tilt (balance + s.toward) = s.tilt balance + 1 := by
  cases s with
  | left =>
      simp only [toward, tilt]
      omega
  | right => rfl

theorem tilt_sub_toward (s : Side) (balance : Int) : s.tilt (balance - s.toward) = s.tilt balance - 1 := by
  cases s with
  | left =>
      simp only [toward, tilt]
      omega
  | right => rfl

theorem tilt_eq_zero {s : Side} {balance : Int} : s.tilt balance = 0 ↔ balance = 0 := by
  cases s <;> simp [tilt]

end Side

inductive AvlTree (α : Type)
  | nil
  | node (a : α) (balance : Int) (child : Side → AvlTree α)

namespace AvlTree
variable {α : Type}

def root : AvlTree α → Option α
  | nil => none
  | node a _ _ => some a

@[simp] theorem root_nil : (nil : AvlTree α).root = none := rfl

@[simp] theorem root_node {a : α} {balance : Int} {child : Side → AvlTree α} :
    (node a balance child).root = some a := rfl

def height : AvlTree α → Nat
  | nil => 0
  | node _ _ child => 1 + max (child .left).height (child .right).height

def inorder : AvlTree α → List α
  | nil => []
  | node a _ child => (child .left).inorder ++ a :: (child .right).inorder

def Balanced : AvlTree α → Prop
  | nil => True
  | node _ balance child =>
      balance = (child .right).height - (child .left).height ∧ -1 ≤ balance ∧ balance ≤ 1 ∧
        ∀ s, (child s).Balanced

theorem height_node {a : α} {balance : Int} {s : Side} {x y : AvlTree α} :
    (node a balance (s.pick x y)).height = 1 + max x.height y.height := by
  cases s
  · rfl
  · exact congrArg (1 + ·) (Nat.max_comm _ _)

theorem balanced_node {a : α} {balance : Int} {s : Side} {x y : AvlTree α} :
    (node a balance (s.pick x y)).Balanced ↔
      s.tilt balance = x.height - y.height ∧ -1 ≤ s.tilt balance ∧ s.tilt balance ≤ 1 ∧ x.Balanced ∧ y.Balanced := by
  have both : (∀ side, (s.pick x y side).Balanced) ↔ x.Balanced ∧ y.Balanced := s.forall_pick
  have heights : (balance = (s.pick x y .right).height - (s.pick x y .left).height ∧ -1 ≤ balance ∧ balance ≤ 1) ↔
      s.tilt balance = x.height - y.height ∧ -1 ≤ s.tilt balance ∧ s.tilt balance ≤ 1 := by
    cases s
    · simp only [Side.pick, Side.tilt]
      simp
      omega
    · simp [Side.pick, Side.tilt]
  rw [Balanced, both]
  tauto

theorem inorder_node {a : α} {balance : Int} {s : Side} {x y : AvlTree α} :
    (node a balance (s.pick x y)).inorder = s.pick (x.inorder ++ a :: y.inorder) (y.inorder ++ a :: x.inorder) .left := by
  cases s <;> rfl

theorem perm_inorder_node {a : α} {balance : Int} {s : Side} {x y : AvlTree α} :
    (node a balance (s.pick x y)).inorder.Perm (a :: (x.inorder ++ y.inorder)) := by
  cases s with
  | left => exact List.perm_middle
  | right => exact List.perm_middle.trans (List.Perm.cons a List.perm_append_comm)

theorem height_le_length (t : AvlTree α) : t.height ≤ t.inorder.length := by
  induction t with
  | nil => exact Nat.le_refl 0
  | node a balance child ih =>
      have left := ih .left
      have right := ih .right
      simp only [height, inorder, List.length_append, List.length_cons]
      omega

/-! ## Places in a tree -/

structure Frame (α : Type) where
  a : α
  balance : Int
  side : Side
  other : AvlTree α

namespace Frame

def fill (f : Frame α) (t : AvlTree α) : AvlTree α := node f.a f.balance (f.side.pick t f.other)

theorem fill_child (s : Side) (a : α) (balance : Int) (child : Side → AvlTree α) :
    fill ⟨a, balance, s, child s.flip⟩ (child s) = node a balance child :=
  congrArg (node a balance) (s.pick_eta child)

def before (f : Frame α) : List α := f.side.pick [] (f.other.inorder ++ [f.a]) .left

def after (f : Frame α) : List α := f.side.pick (f.a :: f.other.inorder) [] .left

theorem inorder_fill (f : Frame α) (t : AvlTree α) : (f.fill t).inorder = f.before ++ (t.inorder ++ f.after) := by
  obtain ⟨a, balance, side, other⟩ := f
  cases side <;> simp [fill, inorder, before, after, Side.pick]

end Frame

abbrev Path (α : Type) := List (Frame α)

namespace Path

def plug : Path α → AvlTree α → AvlTree α
  | [], t => t
  | f :: path, t => plug path (f.fill t)

def parent : Path α → Option α
  | [] => none
  | f :: _ => some f.a

def before : Path α → List α
  | [] => []
  | f :: path => before path ++ f.before

def after : Path α → List α
  | [] => []
  | f :: path => f.after ++ after path

def spine : Path α → List α
  | [] => []
  | f :: path => f.a :: (f.other.inorder ++ spine path)

/-- The balances above a place fit a subtree of this height in it. -/
def Fits : Path α → Nat → Prop
  | [], _ => True
  | f :: path, height =>
      f.side.tilt f.balance = height - f.other.height ∧ -1 ≤ f.side.tilt f.balance ∧ f.side.tilt f.balance ≤ 1 ∧
        f.other.Balanced ∧ Fits path (1 + max height f.other.height)

theorem inorder_plug (path : Path α) (t : AvlTree α) :
    (plug path t).inorder = before path ++ (t.inorder ++ after path) := by
  induction path generalizing t with
  | nil => simp [plug, before, after]
  | cons f path ih => simp [plug, before, after, ih, f.inorder_fill]

theorem perm_inorder_plug (path : Path α) (t : AvlTree α) : (plug path t).inorder.Perm (t.inorder ++ spine path) := by
  induction path generalizing t with
  | nil => simp [plug, spine]
  | cons f path ih =>
      refine (ih (f.fill t)).trans ?_
      rw [spine, Frame.fill]
      refine (perm_inorder_node.append_right _).trans ?_
      simpa using List.perm_middle.symm

theorem balanced_plug {path : Path α} {t : AvlTree α} : (plug path t).Balanced ↔ t.Balanced ∧ Fits path t.height := by
  induction path generalizing t with
  | nil => simp [plug, Fits]
  | cons f path ih =>
      rw [plug, ih, Frame.fill, balanced_node, height_node, Fits]
      tauto

theorem length_le (path : Path α) (t : AvlTree α) : path.length ≤ (plug path t).inorder.length := by
  rw [inorder_plug]
  induction path with
  | nil => simp
  | cons f path ih =>
      have one : 1 ≤ f.before.length + f.after.length := by
        obtain ⟨a, balance, side, other⟩ := f
        cases side <;> simp [Frame.before, Frame.after, Side.pick]
      simp only [List.length_append, List.length_cons, before, after] at ih ⊢
      omega

theorem before_append (inner outer : Path α) : before (inner ++ outer) = before outer ++ before inner := by
  induction inner with
  | nil => exact (List.append_nil _).symm
  | cons f inner ih => simp [before, ih]

theorem after_append (inner outer : Path α) : after (inner ++ outer) = after inner ++ after outer := by
  induction inner with
  | nil => rfl
  | cons f inner ih => simp [after, ih]

theorem plug_append (inner outer : Path α) (t : AvlTree α) : plug (inner ++ outer) t = plug outer (plug inner t) := by
  induction inner generalizing t with
  | nil => rfl
  | cons f inner ih => exact ih (f.fill t)

end Path

theorem Path.inorder_plug_balance (path : Path α) (f : Frame α) (balance : Int) (t : AvlTree α) :
    (Path.plug ({ f with balance := balance } :: path) t).inorder = (Path.plug (f :: path) t).inorder := by
  rw [Path.inorder_plug, Path.inorder_plug]
  rfl

theorem exists_place {t : AvlTree α} {a : α} (member : a ∈ t.inorder) :
    ∃ path balance child, t = Path.plug path (node a balance child) := by
  induction t with
  | nil => cases member
  | node b balance child ih =>
      have inChild : ∀ s, a ∈ (child s).inorder →
          ∃ path balance' child', node b balance child = Path.plug path (node a balance' child') := by
        intro s inside
        obtain ⟨path, balance', child', place⟩ := ih s inside
        refine ⟨path ++ [⟨b, balance, s, child s.flip⟩], balance', child', ?_⟩
        rw [Path.plug_append, ← place]
        exact (Frame.fill_child s b balance child).symm
      rw [inorder, List.mem_append, List.mem_cons] at member
      rcases member with member | rfl | member
      · exact inChild .left member
      · exact ⟨[], balance, child, rfl⟩
      · exact inChild .right member

/-! ## Rotations -/

end AvlTree

def Side.lowered : Side → Int → Int → Int
  | left, node, up => node + (1 - min up 0)
  | right, node, up => node - (1 + max up 0)

def Side.lifted : Side → Int → Int → Int
  | left, up, node => up + (1 + max node 0)
  | right, up, node => up - (1 - min node 0)

namespace AvlTree
variable {α : Type}

def rotated (s : Side) (x : α) (bx : Int) (y : α) (yb : Int) (t₁ t₂ t₃ : AvlTree α) : AvlTree α :=
  node y (s.lifted yb (s.lowered bx yb)) (s.pick t₁ (node x (s.lowered bx yb) (s.pick t₂ t₃)))

section Rotations
variable {s : Side} {x y z : α} {bx yb bz : Int} {t₁ t₂ t₃ t₄ : AvlTree α}

theorem inorder_rotated :
    (rotated s x bx y yb t₁ t₂ t₃).inorder = (node x bx (s.pick (node y yb (s.pick t₁ t₂)) t₃)).inorder := by
  cases s <;> simp [rotated, inorder, Side.pick]

theorem rotated_balanced (first : t₁.Balanced) (second : t₂.Balanced) (third : t₃.Balanced)
    (inner : s.tilt yb = t₁.height - t₂.height) (nonneg : 0 ≤ s.tilt yb) (le : s.tilt yb ≤ 1)
    (outer : 1 + max t₁.height t₂.height = t₃.height + 2) (heavy : s.tilt bx = 2) :
    (rotated s x bx y yb t₁ t₂ t₃).Balanced ∧
      (rotated s x bx y yb t₁ t₂ t₃).height + 1 = t₃.height + (if s.tilt yb = 0 then 4 else 3) := by
  simp only [rotated, balanced_node, height_node]
  have low : s.tilt (s.lowered bx yb) = t₂.height - t₃.height := by
    cases s <;> simp only [Side.tilt, Side.lowered] at * <;> omega
  have high : s.tilt (s.lifted yb (s.lowered bx yb)) = t₁.height - (1 + max t₂.height t₃.height : Nat) := by
    cases s <;> simp only [Side.tilt, Side.lowered, Side.lifted] at * <;> omega
  refine ⟨⟨high, by omega, by omega, first, low, by omega, by omega, second, third⟩, ?_⟩
  split_ifs <;> omega

theorem rotated_rotated_balanced (first : t₁.Balanced) (second : t₂.Balanced) (third : t₃.Balanced)
    (fourth : t₄.Balanced) (inmost : s.tilt bz = t₂.height - t₃.height) (ge : -1 ≤ s.tilt bz) (le : s.tilt bz ≤ 1)
    (inner : t₁.height = max t₂.height t₃.height) (leansBack : s.tilt yb = -1) (outer : t₁.height = t₄.height)
    (heavy : s.tilt bx = 2) :
    (rotated s x bx z (s.flip.lifted bz (s.flip.lowered yb bz))
        (node y (s.flip.lowered yb bz) (s.pick t₁ t₂)) t₃ t₄).Balanced ∧
      (rotated s x bx z (s.flip.lifted bz (s.flip.lowered yb bz))
        (node y (s.flip.lowered yb bz) (s.pick t₁ t₂)) t₃ t₄).height = t₄.height + 2 := by
  simp only [rotated, balanced_node, height_node]
  have low : s.tilt (s.flip.lowered yb bz) = t₁.height - t₂.height := by
    cases s <;> simp only [Side.tilt, Side.flip, Side.lowered] at * <;> omega
  have up : s.tilt (s.flip.lifted bz (s.flip.lowered yb bz)) = (1 + max t₁.height t₂.height : Nat) - t₃.height := by
    cases s <;> simp only [Side.tilt, Side.flip, Side.lowered, Side.lifted] at * <;> omega
  generalize s.flip.lifted bz (s.flip.lowered yb bz) = b at up ⊢
  have low' : s.tilt (s.lowered bx b) = t₃.height - t₄.height := by
    cases s <;> simp only [Side.tilt, Side.lowered] at * <;> omega
  have up' : s.tilt (s.lifted b (s.lowered bx b)) =
      (1 + max t₁.height t₂.height : Nat) - (1 + max t₃.height t₄.height : Nat) := by
    cases s <;> simp only [Side.tilt, Side.lowered, Side.lifted] at * <;> omega
  refine ⟨⟨up', by omega, by omega, ⟨low, by omega, by omega, first, second⟩, low', by omega, by omega, third, fourth⟩, ?_⟩
  omega

end Rotations

end AvlTree
end HvmlFpm.Library
