import EggLang.Scope.Frames

/-!
# What setting a name and opening a frame change

Setting a name changes what one frame binds that name to. Opening a frame leaves every frame
before it alone. The root frame is changed by a setting in frame zero only. A look-up sees nothing
of the frames but what those on its way bind the name to and what lies around them.
-/

namespace EggLang

namespace Frames

variable {α : Type}

theorem frame?_set (fs : Frames α) (env : Nat) (name : Bytes) (value : α) (i : Nat) :
    (fs.set env name value).frame? i = if i = env
      then (fs.frame? i).map fun f => { f with bindings := f.bindings.set name value }
      else fs.frame? i := by
  by_cases h : i = env
  · subst h
    simp [frame?, set]
  · have : env ≠ i := fun same => h same.symm
    simp [frame?, set, h, this]

@[simp] theorem size_set (fs : Frames α) (env : Nat) (name : Bytes) (value : α) :
    (fs.set env name value).size = fs.size := by
  simp [size, set]

@[simp] theorem outer?_set (fs : Frames α) (env : Nat) (name : Bytes) (value : α) (i : Nat) :
    (fs.set env name value).outer? i = fs.outer? i := by
  simp only [outer?, frame?_set]
  by_cases h : i = env
  · cases hf : fs.frame? i <;> simp [h]
  · rw [if_neg h]

@[simp] theorem isFunction_set (fs : Frames α) (env : Nat) (name : Bytes) (value : α) (i : Nat) :
    (fs.set env name value).isFunction i = fs.isFunction i := by
  simp only [isFunction, frame?_set]
  by_cases h : i = env
  · cases hf : fs.frame? i <;> simp [h]
  · rw [if_neg h]

theorem frame?_isSome_iff (fs : Frames α) (i : Nat) : (fs.frame? i).isSome ↔ i < fs.size := by
  simp [frame?, size]

theorem frame?_of_size_le {fs : Frames α} {i : Nat} (beyond : fs.size ≤ i) : fs.frame? i = none :=
  List.getElem?_eq_none beyond

theorem own?_set (fs : Frames α) (env : Nat) (name : Bytes) (value : α) (i : Nat) (n : Bytes) :
    (fs.set env name value).own? i n
      = if i = env ∧ n = name ∧ i < fs.size then some value else fs.own? i n := by
  simp only [own?, frame?_set, ← frame?_isSome_iff]
  by_cases h : i = env
  · cases fs.frame? i with
    | none => simp
    | some f => simp [h]
  · simp [h]

theorem own?_set_of_ne (fs : Frames α) (env : Nat) {name n : Bytes} (value : α) (i : Nat)
    (h : n ≠ name) : (fs.set env name value).own? i n = fs.own? i n := by
  simp [own?_set, h]

theorem owns_set_iff (fs : Frames α) (env : Nat) (name : Bytes) (value : α) (i : Nat) (n : Bytes) :
    (fs.set env name value).owns i n = true
      ↔ fs.owns i n = true ∨ i = env ∧ n = name ∧ i < fs.size := by
  rw [owns, owns, own?_set]
  split
  next same => exact iff_of_true rfl (.inr same)
  next other => exact ⟨.inl, fun h => h.resolve_right other⟩

theorem frame?_push (fs : Frames α) (f : Frame α) (i : Nat) :
    (fs.push f).2.frame? i = if i = fs.size then some f else fs.frame? i := by
  by_cases h : i = fs.size
  · rw [if_pos h, h]
    simp [frame?, push, size]
  · rw [if_neg h]
    rcases Nat.lt_or_gt_of_ne h with before | after
    · exact List.getElem?_append_left before
    · have none_before : fs.frame? i = none := List.getElem?_eq_none (Nat.le_of_lt after)
      rw [none_before]
      have past : (fs.frames ++ [f]).length ≤ i := by
        rw [List.length_append]
        exact after
      exact List.getElem?_eq_none past

@[simp] theorem size_push (fs : Frames α) (f : Frame α) : (fs.push f).2.size = fs.size + 1 := by
  simp [size, push]

theorem outer?_push (fs : Frames α) (f : Frame α) (i : Nat) :
    (fs.push f).2.outer? i = if i = fs.size then f.outer else fs.outer? i := by
  rw [outer?, frame?_push]
  split
  · rfl
  · rfl

theorem isFunction_push (fs : Frames α) (f : Frame α) (i : Nat) :
    (fs.push f).2.isFunction i = if i = fs.size then f.isFunction else fs.isFunction i := by
  simp only [isFunction, frame?_push]
  by_cases h : i = fs.size
  · simp only [if_pos h]
  · simp only [if_neg h]

theorem own?_push (fs : Frames α) (f : Frame α) (i : Nat) (name : Bytes) :
    (fs.push f).2.own? i name = if i = fs.size then f.bindings.get? name else fs.own? i name := by
  rw [own?, frame?_push]
  split
  · rfl
  · rfl

/-! ## Look-ups in two sets of frames -/

/-- A look-up goes by what the frames on the way bind the name to and by what lies around them, so
it tells of a value only what those tell. -/
theorem get?_map_congr {β γ : Type} {fs : Frames α} {gs : Frames β} {p : α → γ} {q : β → γ}
    {env : Nat} {name : Bytes}
    (own : ∀ i ≤ env, (fs.own? i name).map p = (gs.own? i name).map q)
    (outer : ∀ i ≤ env, fs.outer? i = gs.outer? i) :
    (fs.get? env name).map p = (gs.get? env name).map q := by
  induction env using Nat.strongRecOn with
  | ind env ih =>
    have here := own env (Nat.le_refl env)
    rw [get?, get?, ← outer env (Nat.le_refl env)]
    cases found : fs.own? env name with
    | some v =>
      cases found' : gs.own? env name with
      | some w => rwa [found, found'] at here
      | none => simp [found, found'] at here
    | none =>
      cases found' : gs.own? env name with
      | some w => simp [found, found'] at here
      | none =>
        cases fs.outer? env with
        | none => rfl
        | some next =>
          by_cases inside : next < env
          · have narrower {i : Nat} (below : i ≤ next) : i ≤ env :=
              Nat.le_trans below (Nat.le_of_lt inside)
            simp only [if_pos inside]
            exact ih next inside (fun i below => own i (narrower below))
              fun i below => outer i (narrower below)
          · simp only [if_neg inside]
            rfl

theorem get?_congr {fs gs : Frames α} {env : Nat} {name : Bytes}
    (own : ∀ i ≤ env, fs.own? i name = gs.own? i name)
    (outer : ∀ i ≤ env, fs.outer? i = gs.outer? i) : fs.get? env name = gs.get? env name := by
  have mapped := get?_map_congr (p := id) (q := id) (fun i below => by rw [own i below]) outer
  rw [Option.map_id] at mapped
  exact mapped

theorem get?_set_of_ne (fs : Frames α) (env : Nat) {name n : Bytes} (value : α) (other : n ≠ name)
    (i : Nat) : (fs.set env name value).get? i n = fs.get? i n :=
  get?_congr (fun j _ => own?_set_of_ne fs env value j other) fun _ _ => outer?_set ..

/-- Opening a frame changes no look-up from the frames before it. -/
theorem get?_push (fs : Frames α) (f : Frame α) {env : Nat} (made : env < fs.size) (name : Bytes) :
    (fs.push f).2.get? env name = fs.get? env name := by
  have older {i : Nat} (below : i ≤ env) : i ≠ fs.size :=
    Nat.ne_of_lt (Nat.lt_of_le_of_lt below made)
  refine get?_congr (fun i below => ?_) fun i below => ?_
  · rw [own?_push, if_neg (older below)]
  · rw [outer?_push, if_neg (older below)]

/-! ## The root -/

theorem root_set_of_ne_zero (fs : Frames α) {env : Nat} (name : Bytes) (value : α)
    (h : env ≠ 0) : (fs.set env name value).root = fs.root := by
  obtain ⟨_ | ⟨f, rest⟩⟩ := fs
  · cases env <;> rfl
  · cases env with
    | zero => contradiction
    | succ i => rfl

theorem root_push (fs : Frames α) (f : Frame α) (h : 0 < fs.size) :
    (fs.push f).2.root = fs.root := by
  obtain ⟨_ | ⟨g, rest⟩⟩ := fs
  · simp [size] at h
  · rfl

theorem get?_root (fs : Frames α) (name : Bytes) : fs.root.get? name = fs.own? 0 name := by
  obtain ⟨_ | ⟨f, rest⟩⟩ := fs <;> rfl

end Frames

end EggLang
