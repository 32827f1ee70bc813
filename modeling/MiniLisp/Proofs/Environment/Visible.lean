import Mathlib.Data.List.Induction
import MiniLisp.Environment

/-!
# What a chain of frames shows

Four functions go through a chain of frames for a name: `find?`, `lookup?`, `contains` and `names`.
All of them answer by the **innermost frame that binds the name**, so they agree
(`Environment.views_agree`).

* `Environment.Built env around`: `env` was made by `root` and `extend`, and `around` are the
  environments around it from the inside out. Every frame of it binds each name once.
* `Environment.Innermost env around name e`: of `env` and those around it `e` is the first whose own
  frame binds the name. `Built.find?_eq_some_iff`: this is what is found.
* `Environment.visibleNames`: the names of some frames, frame by frame, each where it is bound first.
-/

namespace MiniLisp

/-! ## One frame -/

namespace Assoc

variable {κ β : Type} [DecidableEq κ]

theorem keys_put (key : κ) (value : β) (bs : Assoc κ β) :
    (put key value bs).map Prod.fst =
      if key ∈ bs.map Prod.fst then bs.map Prod.fst else bs.map Prod.fst ++ [key] := by
  induction bs with
  | nil => rfl
  | cons b bs ih =>
    by_cases hb : b.1 = key
    · simp [put, hb]
    · have hne : key ≠ b.1 := fun h => hb h.symm
      rw [put, if_neg hb, List.map_cons, ih]
      by_cases hkey : key ∈ bs.map Prod.fst
      · simp [hkey]
      · simp [hkey, hne]

theorem ofList_append_singleton (bs : List (κ × β)) (b : κ × β) :
    ofList (bs ++ [b]) = put b.1 b.2 (ofList bs) := by
  unfold ofList
  rw [List.foldl_append, List.foldl_cons, List.foldl_nil]

/-- Each key is there once. -/
theorem nodup_keys_ofList (bs : List (κ × β)) : ((ofList bs).map Prod.fst).Nodup := by
  induction bs using List.reverseRecOn with
  | nil => exact List.nodup_nil
  | append_singleton bs b ih =>
    rw [ofList_append_singleton, keys_put]
    by_cases hb : b.1 ∈ (ofList bs).map Prod.fst
    · rw [if_pos hb]
      exact ih
    · rw [if_neg hb]
      refine List.nodup_append.2 ⟨ih, List.pairwise_singleton _ _, ?_⟩
      rintro key hkey _ hlast rfl
      exact hb (List.mem_singleton.1 hlast ▸ hkey)

theorem isSome_get?_iff {key : κ} {bs : Assoc κ β} :
    (get? key bs).isSome = true ↔ key ∈ bs.map Prod.fst := by
  unfold get?
  rw [Option.isSome_map, List.find?_isSome]
  simp only [List.mem_map, decide_eq_true_eq]

/-- With distinct keys, what is under a key is what it was put with. -/
theorem get?_eq_some_iff {key : κ} {value : β} {bs : Assoc κ β} (h : (bs.map Prod.fst).Nodup) :
    get? key bs = some value ↔ (key, value) ∈ bs := by
  induction bs with
  | nil => simp [get?]
  | cons b bs ih =>
    obtain ⟨hb, hbs⟩ := List.nodup_cons.1 h
    have ih := ih hbs
    by_cases hkey : b.1 = key
    · -- the key is at the head, and nowhere else
      have hrest : (key, value) ∉ bs := fun hmem => hb (hkey ▸ List.mem_map_of_mem hmem)
      have hget : get? key (b :: bs) = some b.2 := by simp [get?, hkey]
      rw [hget, List.mem_cons, or_iff_left hrest, Prod.ext_iff]
      simp [hkey, eq_comm]
    · have hget : get? key (b :: bs) = get? key bs := by simp [get?, hkey]
      have hne : (key, value) ≠ b := fun heq => hkey (by rw [← heq])
      rw [hget, ih, List.mem_cons, or_iff_right hne]

/-- What was put last under a key is there. -/
theorem get?_ofList (key : κ) (bs : List (κ × β)) : get? key (ofList bs) = get? key bs.reverse := by
  induction bs using List.reverseRecOn with
  | nil => rfl
  | append_singleton bs b ih =>
    rw [ofList_append_singleton, get?_put, ih, List.reverse_append, List.reverse_singleton,
      List.singleton_append]
    by_cases hkey : key = b.1
    · simp [get?, hkey]
    · have hne : ¬ b.1 = key := fun h => hkey h.symm
      simp [get?, hkey, hne]

theorem get?_reverse_eq_some_iff {key : κ} {value : β} {bs : List (κ × β)} :
    get? key bs.reverse = some value ↔
      ∃ front back, bs = front ++ (key, value) :: back ∧ key ∉ back.map Prod.fst := by
  unfold get?
  rw [Option.map_eq_some_iff]
  constructor
  · rintro ⟨b, hfind, rfl⟩
    obtain ⟨hkey, after, before, hbs, hafter⟩ := List.find?_eq_some_iff_append.1 hfind
    obtain rfl : b.1 = key := by simpa using hkey
    refine ⟨before.reverse, after.reverse, ?_, ?_⟩
    · rw [List.reverse_eq_iff] at hbs
      simpa using hbs
    · rw [List.map_reverse, List.mem_reverse, List.mem_map]
      rintro ⟨c, hc, hkey'⟩
      exact absurd (hafter c hc) (by simp [hkey'])
  · rintro ⟨front, back, rfl, hback⟩
    refine ⟨(key, value), List.find?_eq_some_iff_append.2 ⟨by simp, back.reverse, front.reverse,
      by simp, fun c hc => ?_⟩, rfl⟩
    have hne : c.1 ≠ key := fun h => hback (h ▸ List.mem_map_of_mem (List.mem_reverse.1 hc))
    simp [hne]

end Assoc

/-! ## Chains of frames -/

theorem eraseDups_of_nodup {names : List Text} (h : names.Nodup) : names.eraseDups = names := by
  induction names with
  | nil => rfl
  | cons name names ih =>
    obtain ⟨hname, hrest⟩ := List.nodup_cons.1 h
    have hkept : names.filter (fun other => !other == name) = names := by
      refine List.filter_eq_self.2 fun other hother => ?_
      have hne : other ≠ name := fun heq => hname (heq ▸ hother)
      simp [hne]
    rw [List.eraseDups_cons, hkept, ih hrest]

theorem eraseDups_filter (p : Text → Bool) (names : List Text) :
    (names.filter p).eraseDups = names.eraseDups.filter p := by
  -- what `eraseDups` goes on with is shorter than the tail, so the induction is on the length
  induction hn : names.length using Nat.strongRecOn generalizing names with
  | _ n ih =>
    cases names with
    | nil => rfl
    | cons name names =>
      have hlt : (names.filter fun other => !other == name).length < n := by
        have := List.length_filter_le (fun other => !other == name) names
        rw [List.length_cons] at hn
        omega
      have hrest := ih _ hlt _ rfl
      rw [List.eraseDups_cons, List.filter_cons, List.filter_cons]
      by_cases hp : p name = true
      · rw [if_pos hp, if_pos hp, List.eraseDups_cons, ← hrest, List.filter_filter,
          List.filter_filter]
        simp only [Bool.and_comm]
      · have hkept : (names.filter fun other => !other == name).filter p = names.filter p := by
          rw [List.filter_filter]
          refine List.filter_congr fun other _ => ?_
          by_cases hother : p other = true
          · have hne : other ≠ name := fun heq => hp (heq ▸ hother)
            simp [hne]
          · simp [hother]
        rw [if_neg hp, if_neg hp, ← hrest, hkept]

namespace Environment

variable {β : Type}

/-- An environment that was made by `root` and `extend`, and the environments around it from the
inside out. The bindings may repeat names; those of a mapping come as `Bindings.ofKeyed`. -/
inductive Built : Environment β → List (Environment β) → Prop
  | root (bs : List (Text × β)) : Built (root bs) []
  | extend {env : Environment β} {around : List (Environment β)} (bs : List (Text × β)) :
      Built env around → Built (env.extend bs) (env :: around)

/-- The names that an environment's own frame binds. -/
def ownNames (env : Environment β) : List Text := Bindings.names env.frame

/-- Of an environment and those around it, the first whose own frame binds the name. -/
def Innermost (env : Environment β) (around : List (Environment β)) (name : Text)
    (e : Environment β) : Prop :=
  ∃ front back, env :: around = front ++ e :: back ∧ name ∈ e.ownNames ∧
    ∀ inner ∈ front, name ∉ inner.ownNames

/-- The names that some environments bind by their own frames: environment by environment, each name
where it is bound first. -/
def visibleNames : List (Environment β) → List Text
  | [] => []
  | env :: around => env.ownNames ++ (visibleNames around).filter (· ∉ env.ownNames)

section Steps

variable (env : Environment β) (bs : List (Text × β)) (name : Text)

theorem nodup_ownNames_root : (Environment.root bs).ownNames.Nodup := Assoc.nodup_keys_ofList bs

theorem nodup_ownNames_extend : (env.extend bs).ownNames.Nodup := Assoc.nodup_keys_ofList bs

/-- **What a frame binds**: to each name that was given the value given last. -/
theorem mem_frame_extend_iff (value : β) : (name, value) ∈ (env.extend bs).frame ↔
    ∃ front back, bs = front ++ (name, value) :: back ∧ name ∉ Bindings.names back := by
  unfold Bindings.names
  rw [← Assoc.get?_reverse_eq_some_iff, ← Assoc.get?_ofList]
  exact (Assoc.get?_eq_some_iff (Assoc.nodup_keys_ofList bs)).symm

theorem find?_root :
    (root bs).find? name = if name ∈ (root bs).ownNames then some (root bs) else none := by
  show (if (Assoc.get? name (Assoc.ofList bs)).isSome then _ else _) = _
  simp only [Assoc.isSome_get?_iff]
  rfl

theorem find?_extend : (env.extend bs).find? name =
    if name ∈ (env.extend bs).ownNames then some (env.extend bs) else env.find? name := by
  show (if (Assoc.get? name (Assoc.ofList bs)).isSome then _ else _) = _
  simp only [Assoc.isSome_get?_iff]
  rfl

theorem names_root : (root bs).names = visibleNames [root bs] := by
  show ([Assoc.ofList bs].flatMap Bindings.names).eraseDups = (root bs).ownNames ++ []
  rw [List.flatMap_singleton, List.append_nil]
  exact eraseDups_of_nodup (nodup_ownNames_root bs)

theorem names_extend : (env.extend bs).names =
    (env.extend bs).ownNames ++ env.names.filter (· ∉ (env.extend bs).ownNames) := by
  show ((Assoc.ofList bs :: env.frame :: env.outer).flatMap Bindings.names).eraseDups = _
  have hown : (Bindings.names (Assoc.ofList bs)).eraseDups = Bindings.names (Assoc.ofList bs) :=
    eraseDups_of_nodup (nodup_ownNames_extend env bs)
  rw [List.flatMap_cons, List.eraseDups_append, hown]
  unfold List.removeAll
  rw [eraseDups_filter]
  refine congrArg (_ ++ ·) (List.filter_congr fun other _ => ?_)
  by_cases hother : other ∈ Bindings.names (Assoc.ofList bs) <;> simp [ownNames, extend, hother]

end Steps

/-! ## The innermost binding -/

section Innermost

variable {env next e : Environment β} {around : List (Environment β)} {name : Text}

theorem innermost_nil : Innermost env [] name e ↔ name ∈ env.ownNames ∧ e = env := by
  constructor
  · rintro ⟨front, back, hchain, hname, -⟩
    rcases front with _ | ⟨inner, front⟩
    · obtain ⟨rfl, -⟩ := List.cons.inj hchain
      exact ⟨hname, rfl⟩
    · simp at hchain
  · rintro ⟨hname, rfl⟩
    exact ⟨[], [], rfl, hname, fun _ hinner => absurd hinner List.not_mem_nil⟩

/-- The innermost frame decides, if it binds the name, and the frames around it otherwise. -/
theorem innermost_cons : Innermost env (next :: around) name e ↔
    if name ∈ env.ownNames then e = env else Innermost next around name e := by
  by_cases hown : name ∈ env.ownNames
  · rw [if_pos hown]
    constructor
    · rintro ⟨front, back, hchain, -, hfront⟩
      rcases front with _ | ⟨inner, front⟩
      · exact (List.cons.inj hchain).1.symm
      · obtain ⟨rfl, -⟩ := List.cons.inj hchain
        exact absurd hown (hfront env List.mem_cons_self)
    · rintro rfl
      exact ⟨[], next :: around, rfl, hown, fun _ hinner => absurd hinner List.not_mem_nil⟩
  · rw [if_neg hown]
    constructor
    · rintro ⟨front, back, hchain, hname, hfront⟩
      rcases front with _ | ⟨inner, front⟩
      · obtain ⟨rfl, -⟩ := List.cons.inj hchain
        exact absurd hname hown
      · obtain ⟨-, hrest⟩ := List.cons.inj hchain
        exact ⟨front, back, hrest, hname, fun i hi => hfront i (List.mem_cons_of_mem _ hi)⟩
    · rintro ⟨front, back, hchain, hname, hfront⟩
      exact ⟨env :: front, back, by rw [hchain]; rfl, hname, List.forall_mem_cons.2 ⟨hown, hfront⟩⟩

theorem exists_innermost_iff :
    (∃ e, Innermost env around name e) ↔ ∃ e ∈ env :: around, name ∈ e.ownNames := by
  induction around generalizing env with
  | nil => simp [innermost_nil]
  | cons next around ih =>
    simp only [innermost_cons]
    by_cases hown : name ∈ env.ownNames
    · simp [hown]
    · simp only [if_neg hown, ih]
      simp [hown]

theorem mem_visibleNames {envs : List (Environment β)} :
    name ∈ visibleNames envs ↔ ∃ e ∈ envs, name ∈ e.ownNames := by
  induction envs with
  | nil => simp [visibleNames]
  | cons env envs ih =>
    by_cases hown : name ∈ env.ownNames
    · simp [visibleNames, hown]
    · simp [visibleNames, hown, ih]

theorem nodup_visibleNames {envs : List (Environment β)} (h : ∀ e ∈ envs, e.ownNames.Nodup) :
    (visibleNames envs).Nodup := by
  induction envs with
  | nil => exact List.nodup_nil
  | cons env envs ih =>
    obtain ⟨hown, hrest⟩ := List.forall_mem_cons.1 h
    refine List.nodup_append.2 ⟨hown, (ih hrest).filter _, ?_⟩
    rintro name hname _ hother rfl
    exact absurd hname (by simpa using (List.mem_filter.1 hother).2)

end Innermost

namespace Built

variable {env : Environment β} {around : List (Environment β)}

theorem nodup_ownNames (h : Built env around) : ∀ e ∈ env :: around, e.ownNames.Nodup := by
  induction h with
  | root bs => exact List.forall_mem_singleton.2 (nodup_ownNames_root bs)
  | @extend env around bs _ ih => exact List.forall_mem_cons.2 ⟨nodup_ownNames_extend env bs, ih⟩

/-- **What is found is the innermost frame that binds the name**, with the frames around it. -/
theorem find?_eq_some_iff (h : Built env around) (name : Text) (e : Environment β) :
    env.find? name = some e ↔ Innermost env around name e := by
  induction h with
  | root bs =>
    rw [find?_root, innermost_nil]
    by_cases hown : name ∈ (Environment.root bs).ownNames <;> simp [hown, eq_comm]
  | @extend env around bs _ ih =>
    rw [find?_extend, innermost_cons]
    by_cases hown : name ∈ (env.extend bs).ownNames
    · rw [if_pos hown, if_pos hown, Option.some.injEq, eq_comm]
    · rw [if_neg hown, if_neg hown, ih]

theorem names_eq (h : Built env around) : env.names = visibleNames (env :: around) := by
  induction h with
  | root bs => exact names_root bs
  | @extend env around bs _ ih =>
    rw [names_extend, ih]
    rfl

theorem depth_eq (h : Built env around) : env.depth = around.length := by
  induction h with
  | root bs => rfl
  | @extend env around bs _ ih =>
    show env.depth + 1 = _
    rw [ih, List.length_cons]

end Built

/-- **The value of a name is the one that the innermost frame binds it to.** -/
theorem Built.lookup?_eq_some_iff {env : Environment β} {around : List (Environment β)}
    (h : Built env around) (name : Text) (value : β) :
    env.lookup? name = some value ↔
      ∃ e, Innermost env around name e ∧ (name, value) ∈ e.frame := by
  unfold lookup?
  rw [Option.bind_eq_some_iff]
  refine exists_congr fun e => ?_
  rw [h.find?_eq_some_iff]
  refine and_congr_right fun he => Assoc.get?_eq_some_iff ?_
  obtain ⟨front, back, hchain, -, -⟩ := he
  exact h.nodup_ownNames e (by rw [hchain]; simp)

/-- A name is bound in some frame exactly if it has a value. -/
theorem Built.isSome_lookup?_iff {env : Environment β} {around : List (Environment β)}
    (h : Built env around) (name : Text) :
    (env.lookup? name).isSome = true ↔ ∃ e, Innermost env around name e := by
  rw [Option.isSome_iff_exists]
  simp only [h.lookup?_eq_some_iff]
  constructor
  · rintro ⟨_, e, he, -⟩
    exact ⟨e, he⟩
  · rintro ⟨e, he⟩
    obtain ⟨front, back, -, hname, -⟩ := id he
    obtain ⟨b, hb, rfl⟩ := List.mem_map.1 hname
    exact ⟨b.2, e, he, hb⟩

/-- **The views of an environment agree.** Of every chain of frames, a name has a value exactly if it
is contained, if a frame is found for it, and if it is one of the names. The names are those of the
frames from the inside out, each once and at its innermost binding; the frame found is the innermost
that binds the name, and the value is the one bound there. The depth counts the frames around. A
child binds each of the names given to it to the value given last, and answers by that; for all
other names it answers as its parent does. -/
theorem views_agree {env : Environment β} {around : List (Environment β)} (h : Built env around)
    (name : Text) :
    ((env.lookup? name).isSome = true ↔ env.contains name = true) ∧
    (env.contains name = true ↔ (env.find? name).isSome = true) ∧
    ((env.find? name).isSome = true ↔ name ∈ env.names) ∧
    env.names.Nodup ∧ env.names = visibleNames (env :: around) ∧
    (∀ e, env.find? name = some e ↔ Innermost env around name e) ∧
    (∀ value, env.lookup? name = some value ↔
      ∃ e, Innermost env around name e ∧ (name, value) ∈ e.frame) ∧
    env.depth = around.length ∧
    ∀ bs : List (Text × β),
      (∀ value, (name, value) ∈ (env.extend bs).frame ↔
        ∃ front back, bs = front ++ (name, value) :: back ∧ name ∉ Bindings.names back) ∧
      (∀ value, (name, value) ∈ (env.extend bs).frame →
        (env.extend bs).lookup? name = some value) ∧
      (name ∉ (env.extend bs).ownNames → (env.extend bs).lookup? name = env.lookup? name) := by
  have hfound : (env.find? name).isSome = true ↔ ∃ e, Innermost env around name e := by
    rw [Option.isSome_iff_exists]
    exact exists_congr fun e => h.find?_eq_some_iff name e
  have hnames : name ∈ env.names ↔ ∃ e, Innermost env around name e := by
    rw [h.names_eq, mem_visibleNames, exists_innermost_iff]
  refine ⟨(h.isSome_lookup?_iff name).trans hfound.symm, Iff.rfl, hfound.trans hnames.symm, ?_,
    h.names_eq, h.find?_eq_some_iff name, h.lookup?_eq_some_iff name, h.depth_eq, ?_⟩
  · rw [h.names_eq]
    exact nodup_visibleNames h.nodup_ownNames
  · intro bs
    refine ⟨mem_frame_extend_iff env bs name, ?_, ?_⟩
    · intro value hvalue
      have hown : name ∈ (env.extend bs).ownNames := List.mem_map_of_mem hvalue
      refine ((Built.extend bs h).lookup?_eq_some_iff name value).2 ⟨_, ?_, hvalue⟩
      rw [innermost_cons, if_pos hown]
    · intro hown
      unfold lookup?
      rw [find?_extend, if_neg hown]

/-- A mapping with a text and an atom as keys of one name, and a frame around it that binds the same
name and another one twice. -/
theorem views_agree_keyed :
    let outer : Environment Nat := root [("a", 1), ("b", 2), ("b", 3)]
    let env := outer.extend (Bindings.ofKeyed [(.text "c", 4), (.atom "a", 5), (.text "a", 6)])
    Built env [outer] ∧ env.names = [Text.ofString "c", "a", "b"] ∧ env.depth = 1 ∧
      env.lookup? "a" = some 6 ∧ env.find? "b" = some outer ∧ env.lookup? "b" = some 3 ∧
      env.contains "d" = false := by
  intro outer env
  have h : Built env [outer] := .extend _ (.root _)
  obtain ⟨-, -, -, -, hnames, -, hvalue, hdepth, -⟩ := views_agree h "a"
  obtain ⟨-, -, -, -, -, hfind, hvalue', -, -⟩ := views_agree h "b"
  obtain ⟨-, hcontains, -⟩ := views_agree h "d"
  have hb : Innermost env [outer] "b" outer := ⟨[env], [], rfl, by decide, by decide⟩
  refine ⟨h, hnames.trans (by decide), hdepth, ?_, (hfind outer).2 hb, ?_, ?_⟩
  · exact (hvalue 6).2 ⟨env, ⟨[], [outer], rfl, by decide, by simp⟩, by decide⟩
  · exact (hvalue' 3).2 ⟨outer, hb, by decide⟩
  · rw [← Bool.not_eq_true, hcontains]
    decide

end Environment

end MiniLisp
