import Mathlib.Data.List.TakeWhile

/-! The two ways to find a setting in a line: by its fields, and by the first place where a pattern
occurs in it. -/
namespace DistributedEnclave.Fields
variable {α : Type*}

def fields (sep : α → Bool) (l : List α) : List (List α) :=
  (l.splitOnP sep).filter (fun w => !w.isEmpty)

section Fields
variable {sep : α → Bool}

theorem fields_append (l l' : List α) {c : α} (hc : sep c = true) :
    fields sep (l ++ c :: l') = fields sep l ++ fields sep l' := by
  rw [fields, List.splitOnP_append_cons l l' hc, List.filter_append]
  rfl

theorem fields_word {w : List α} (hne : w ≠ []) (h : ∀ c ∈ w, sep c = false) :
    fields sep w = [w] := by
  have hkept : (!w.isEmpty) = true := by
    rw [Bool.not_eq_true', List.isEmpty_eq_false_iff]
    exact hne
  rw [fields, List.splitOnP_eq_singleton h]
  exact List.filter_cons_of_pos hkept

theorem fields_nil : fields sep [] = [] := rfl

/-- Words are found again between separators. -/
theorem fields_intercalate {c : α} (hc : sep c = true) (words : List (List α))
    (h : ∀ w ∈ words, w ≠ [] ∧ ∀ c ∈ w, sep c = false) :
    fields sep ([c].intercalate words) = words := by
  induction words with
  | nil => rfl
  | cons w words ih =>
    obtain ⟨hne, hw⟩ := h w List.mem_cons_self
    have ih := ih fun w hw => h w (List.mem_cons_of_mem _ hw)
    cases words with
    | nil =>
      rw [List.intercalate_singleton]
      exact fields_word hne hw
    | cons w' words =>
      rw [List.intercalate_cons_cons, List.append_assoc, List.singleton_append,
        fields_append _ _ hc, fields_word hne hw, ih]
      rfl

end Fields

section Cut
variable [DecidableEq α]

def cut (pat : List α) : List α → Option (List α × List α)
  | [] => if pat = [] then some ([], []) else none
  | c :: l =>
    if pat <+: c :: l then some ([], (c :: l).drop pat.length)
    else (cut pat l).map (fun parts => (c :: parts.1, parts.2))

def upTo (pat l : List α) : List α :=
  match cut pat l with
  | none => l
  | some (before, _) => before

variable {pat p k u v l : List α} {x y : α}

theorem cut_prefix (pat l : List α) : cut pat (pat ++ l) = some ([], l) := by
  cases h : pat ++ l with
  | nil =>
    obtain ⟨hpat, hl⟩ := List.append_eq_nil_iff.mp h
    rw [cut, if_pos hpat, hl]
  | cons c rest =>
    rw [cut, if_pos (h ▸ List.prefix_append pat l), ← h, List.drop_left]

theorem cut_none_of_cons {c : α} (h : cut pat (c :: u) = none) :
    ¬pat <+: c :: u ∧ cut pat u = none := by
  rw [cut] at h
  split at h
  · cases h
  · rename_i hstarts
    exact ⟨hstarts, Option.map_eq_none_iff.mp h⟩

omit [DecidableEq α] in
theorem prefix_of_prefix_append (hy : y ∉ pat) (h : pat <+: u ++ y :: l) : pat <+: u := by
  cases List.prefix_or_prefix_of_prefix h (List.prefix_append u (y :: l)) with
  | inl hpat => exact hpat
  | inr hu =>
    obtain ⟨t, rfl⟩ := hu
    cases t with
    | nil => exact List.prefix_iff_eq_append.mpr (by simp)
    | cons z t =>
      obtain ⟨s, hs⟩ := h
      rw [List.append_assoc, List.append_cancel_left_eq, List.cons_append, List.cons.injEq] at hs
      exact absurd (hs.1 ▸ List.mem_append_right u List.mem_cons_self) hy

/-- A pattern is not found across an element that it does not have. -/
theorem cut_append (hy : y ∉ pat) (hu : cut pat u = none) (l : List α) :
    cut pat (u ++ y :: l) = (cut pat l).map (fun parts => (u ++ y :: parts.1, parts.2)) := by
  induction u with
  | nil =>
    have hpat : ¬pat <+: y :: l := by
      intro hstarts
      have hnil := List.prefix_nil.mp (prefix_of_prefix_append (u := []) hy hstarts)
      rw [cut, if_pos hnil] at hu
      cases hu
    rw [List.nil_append, cut, if_neg hpat]
    rfl
  | cons c u ih =>
    obtain ⟨hc, hrest⟩ := cut_none_of_cons hu
    have hpat : ¬pat <+: c :: (u ++ y :: l) := fun hstarts =>
      hc (prefix_of_prefix_append (u := c :: u) hy hstarts)
    rw [List.cons_append, cut, if_neg hpat, ih hrest, Option.map_map]
    rfl

/-- A pattern is not found where its last element is not. -/
theorem cut_of_notMem (hx : x ∉ l) : cut (p ++ [x]) l = none := by
  induction l with
  | nil => rw [cut, if_neg (by simp)]
  | cons c l ih =>
    have hpat : ¬p ++ [x] <+: c :: l := fun hstarts =>
      hx (hstarts.subset (List.mem_append_right p List.mem_cons_self))
    rw [cut, if_neg hpat, ih fun hl => hx (List.mem_cons_of_mem c hl)]
    rfl

/-- A key is not found in a setting of another key, unless that ends with it. -/
theorem cut_setting (hp : x ∉ p) (hk : x ∉ k) (hv : x ∉ v) (hsuffix : ¬p <:+ k) :
    cut (p ++ [x]) (k ++ x :: v) = none := by
  induction k with
  | nil =>
    have hpat : ¬p ++ [x] <+: x :: v := by
      intro hstarts
      cases p with
      | nil => exact hsuffix List.suffix_rfl
      | cons c p =>
        rw [List.cons_append, List.cons_prefix_cons] at hstarts
        exact hp (hstarts.1 ▸ List.mem_cons_self)
    rw [List.nil_append, cut, if_neg hpat, cut_of_notMem hv]
    rfl
  | cons c k ih =>
    have hpat : ¬p ++ [x] <+: c :: (k ++ x :: v) := by
      intro hstarts
      refine hsuffix ?_
      have hkey : p <+: c :: k :=
        prefix_of_prefix_append (u := c :: k) hp ((List.prefix_append p [x]).trans hstarts)
      obtain ⟨t, ht⟩ := hkey
      cases t with
      | nil =>
        rw [List.append_nil] at ht
        exact ht ▸ List.suffix_rfl
      | cons z t =>
        rw [← List.cons_append, ← ht, List.append_assoc, List.prefix_append_right_inj,
          List.cons_append, List.cons_prefix_cons] at hstarts
        have hz : z ∈ c :: k := ht ▸ List.mem_append_right p List.mem_cons_self
        exact absurd (hstarts.1 ▸ hz) hk
    have hk' : x ∉ k := fun h => hk (List.mem_cons_of_mem c h)
    have hsuffix' : ¬p <:+ k := fun h => hsuffix (h.trans (List.suffix_cons c k))
    rw [List.cons_append, cut, if_neg hpat, ih hk' hsuffix']
    rfl

theorem cut_key (hk : x ∉ k) (v : List α) : cut [x] (k ++ x :: v) = some (k, v) := by
  induction k with
  | nil => exact cut_prefix [x] v
  | cons c k ih =>
    have hpat : ¬[x] <+: c :: (k ++ x :: v) := by
      intro hstarts
      rw [List.cons_prefix_cons] at hstarts
      exact hk (hstarts.1 ▸ List.mem_cons_self)
    rw [List.cons_append, cut, if_neg hpat, ih fun h => hk (List.mem_cons_of_mem c h)]
    rfl

/-- A line with a field that the pattern begins, and none before in which it occurs. -/
theorem cut_line (hy : y ∉ pat) (words : List (List α)) (h : ∀ w ∈ words, cut pat w = none)
    (v : List α) (rest : List (List α)) :
    ∃ before, cut pat ([y].intercalate (words ++ (pat ++ v) :: rest)) =
      some (before, [y].intercalate (v :: rest)) := by
  induction words with
  | nil =>
    refine ⟨[], ?_⟩
    have hline : [y].intercalate ((pat ++ v) :: rest) = pat ++ [y].intercalate (v :: rest) := by
      cases rest with
      | nil => simp only [List.intercalate_singleton]
      | cons w rest => simp only [List.intercalate_cons_cons, List.append_assoc]
    rw [List.nil_append, hline]
    exact cut_prefix pat _
  | cons w words ih =>
    obtain ⟨before, hbefore⟩ := ih fun w hw => h w (List.mem_cons_of_mem _ hw)
    refine ⟨w ++ y :: before, ?_⟩
    rw [List.cons_append, List.intercalate_cons_of_ne_nil (by simp), List.append_assoc,
      List.singleton_append, cut_append hy (h w List.mem_cons_self), hbefore]
    rfl

/-- A line without a field in which the pattern occurs. -/
theorem cut_line_none (hy : y ∉ pat) {words : List (List α)} (hne : words ≠ [])
    (h : ∀ w ∈ words, cut pat w = none) : cut pat ([y].intercalate words) = none := by
  induction words with
  | nil => exact absurd rfl hne
  | cons w words ih =>
    cases words with
    | nil =>
      rw [List.intercalate_singleton]
      exact h w List.mem_cons_self
    | cons w' words =>
      rw [List.intercalate_cons_cons, List.append_assoc, List.singleton_append,
        cut_append hy (h w List.mem_cons_self),
        ih (by simp) fun w hw => h w (List.mem_cons_of_mem _ hw)]
      rfl

/-- The first field of what is before the next place of the pattern. -/
theorem takeWhile_upTo (hy : y ∉ pat) (hv : cut pat v = none) (hyv : y ∉ v)
    (rest : List (List α)) :
    (upTo pat ([y].intercalate (v :: rest))).takeWhile (· ≠ y) = v := by
  have hall : ∀ c ∈ v, decide (c ≠ y) = true := by
    intro c hc
    exact decide_eq_true fun heq => hyv (heq ▸ hc)
  have htake : ∀ l : List α, (v ++ y :: l).takeWhile (· ≠ y) = v := by
    intro l
    rw [List.takeWhile_append_of_pos hall]
    simp
  rw [upTo]
  cases rest with
  | nil =>
    rw [List.intercalate_singleton, hv]
    exact List.takeWhile_eq_self_iff.mpr hall
  | cons w rest =>
    rw [List.intercalate_cons_cons, List.append_assoc, List.singleton_append, cut_append hy hv]
    cases cut pat ([y].intercalate (w :: rest)) with
    | none => exact htake _
    | some parts => exact htake _

end Cut

end DistributedEnclave.Fields
