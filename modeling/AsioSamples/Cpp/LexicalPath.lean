import AsioSamples.Cpp.Bytes

/-!
# Cpp/LexicalPath — relative paths, resolved lexically

The components of a path lie between its `'/'`s; resolving them drops empty ones and `"."`, and lets
`".."` take back the name before it, as `std::filesystem::path::lexically_normal` does.  A path is
`Inside` a directory if what is left starts with that directory and goes on below it.

`inside_iff` says which paths are: those that come to the directory, and from there on never climb
above it and end below it (`Stays`).
-/

namespace AsioSamples

namespace LexicalPath

/-- `'/'`. -/
def slash : UInt8 := 47

/-- `"."`. -/
def dot : Bytes := [46]

/-- `".."`. -/
def dotdot : Bytes := [46, 46]

def components (path : Bytes) : List Bytes := path.splitOn slash

/-- The components that name an entry. -/
def isName (c : Bytes) : Bool := c ≠ [] ∧ c ≠ dot ∧ c ≠ dotdot

/-- One more component, on the resolved ones before it, the last of them first. -/
def resolveStep (resolved : List Bytes) (c : Bytes) : List Bytes :=
  if c = [] ∨ c = dot then resolved
  else if c = dotdot then
    match resolved with
    | top :: below => if top = dotdot then dotdot :: top :: below else below
    | [] => [dotdot]
  else c :: resolved

def resolve (cs : List Bytes) : List Bytes := cs.foldl resolveStep []

/-- The components of the normal form of a path. -/
def lexicallyNormal (path : Bytes) : List Bytes := (resolve (components path)).reverse

/-- The path is that of an entry strictly inside `dir`. -/
def Inside (dir path : Bytes) : Prop := ∃ c cs, lexicallyNormal path = dir :: c :: cs

/-- How many components go down, -/
def names (cs : List Bytes) : ℕ := cs.countP isName

/-- and how many go up. -/
def ups (cs : List Bytes) : ℕ := cs.count dotdot

/-- The components never climb above where they start. -/
def NeverAbove (cs : List Bytes) : Prop := ∀ pre, pre <+: cs → ups pre ≤ names pre

/-- …and end below it. -/
structure Stays (cs : List Bytes) : Prop where
  neverAbove : NeverAbove cs
  below : ups cs < names cs

/-! ## One component -/

theorem isName_dotdot : isName dotdot = false := by decide

/-- A component names an entry, or goes up, or does nothing. -/
theorem component_cases (c : Bytes) :
    isName c = true ∨ c = dotdot ∨ (isName c = false ∧ c ≠ dotdot ∧
      ∀ resolved, resolveStep resolved c = resolved) := by
  by_cases hskip : c = [] ∨ c = dot
  · refine Or.inr (Or.inr ⟨?_, ?_, fun resolved => if_pos hskip⟩)
    · rcases hskip with rfl | rfl <;> decide
    · rcases hskip with rfl | rfl <;> decide
  · by_cases hup : c = dotdot
    · exact Or.inr (Or.inl hup)
    · rw [not_or] at hskip
      exact Or.inl (by simp [isName, hskip, hup])

theorem resolveStep_name {c : Bytes} (hc : isName c) (resolved : List Bytes) :
    resolveStep resolved c = c :: resolved := by
  simp only [isName, decide_eq_true_eq] at hc
  unfold resolveStep
  rw [if_neg (not_or.mpr ⟨hc.1, hc.2.1⟩), if_neg hc.2.2]

theorem resolveStep_up {c : Bytes} (hc : isName c) (resolved : List Bytes) :
    resolveStep (c :: resolved) dotdot = resolved := by
  simp only [isName, decide_eq_true_eq] at hc
  unfold resolveStep
  rw [if_neg (by decide), if_pos rfl]
  exact if_neg hc.2.2

theorem resolveStep_up_replicate : ∀ k : ℕ,
    resolveStep (List.replicate k dotdot) dotdot = List.replicate (k + 1) dotdot
  | 0 => rfl
  | k + 1 => by
    unfold resolveStep
    rw [if_neg (by decide), if_pos rfl]
    exact if_pos rfl

theorem resolve_concat (cs : List Bytes) (c : Bytes) :
    resolve (cs ++ [c]) = resolveStep (resolve cs) c := by
  simp [resolve]

theorem ne_dotdot_of_isName {c : Bytes} (hc : isName c) : c ≠ dotdot := by
  rintro rfl
  exact absurd hc (by decide)

/-- What one more component adds to the two counts: a name goes down, -/
theorem count_name {c : Bytes} (hc : isName c) (cs : List Bytes) :
    names (cs ++ [c]) = names cs + 1 ∧ ups (cs ++ [c]) = ups cs := by
  simp [names, ups, List.countP_append, hc, ne_dotdot_of_isName hc]

/-- `".."` goes up, -/
theorem count_up (cs : List Bytes) :
    names (cs ++ [dotdot]) = names cs ∧ ups (cs ++ [dotdot]) = ups cs + 1 := by
  simp [names, ups, List.countP_append, isName_dotdot]

/-- and anything else does neither. -/
theorem count_skip {c : Bytes} (hname : isName c = false) (hup : c ≠ dotdot) (cs : List Bytes) :
    names (cs ++ [c]) = names cs ∧ ups (cs ++ [c]) = ups cs := by
  simp [names, ups, List.countP_append, hname, hup]

theorem neverAbove_concat {cs : List Bytes} {c : Bytes} :
    NeverAbove (cs ++ [c]) ↔ NeverAbove cs ∧ ups (cs ++ [c]) ≤ names (cs ++ [c]) := by
  constructor
  · exact fun h => ⟨fun pre hpre => h pre (hpre.trans (List.prefix_append _ _)),
      h _ (List.prefix_refl _)⟩
  · rintro ⟨hcs, hall⟩ pre hpre
    rcases List.prefix_concat_iff.mp hpre with rfl | hpre
    · exact hall
    · exact hcs pre hpre

/-! ## What is resolved -/

/-- **Resolved components are names above `".."`s.** -/
theorem exists_resolve_eq (cs : List Bytes) : ∃ ns k, resolve cs = ns ++ List.replicate k dotdot ∧
    ∀ c ∈ ns, isName c := by
  induction cs using List.reverseRecOn with
  | nil => exact ⟨[], 0, rfl, by simp⟩
  | append_singleton cs c ih =>
    obtain ⟨ns, k, hcs, hns⟩ := ih
    rw [resolve_concat, hcs]
    rcases component_cases c with hc | rfl | ⟨-, -, hskip⟩
    · exact ⟨c :: ns, k, resolveStep_name hc _, List.forall_mem_cons.mpr ⟨hc, hns⟩⟩
    · cases ns with
      | nil => exact ⟨[], k + 1, resolveStep_up_replicate k, by simp⟩
      | cons n ns =>
        rw [List.forall_mem_cons] at hns
        exact ⟨ns, k, resolveStep_up hns.1 _, hns.2⟩
    · exact ⟨ns, k, hskip _, hns⟩

/-- **Components that never climb above their start** stack up above what was there. -/
theorem exists_foldl_eq {cs : List Bytes} (h : NeverAbove cs) (base : List Bytes) :
    ∃ ns, cs.foldl resolveStep base = ns ++ base ∧ ns.length + ups cs = names cs ∧
      ∀ c ∈ ns, isName c := by
  induction cs using List.reverseRecOn with
  | nil => exact ⟨[], rfl, rfl, by simp⟩
  | append_singleton cs c ih =>
    obtain ⟨hcs, hall⟩ := neverAbove_concat.mp h
    obtain ⟨ns, hfold, hlen, hns⟩ := ih hcs
    rw [List.foldl_concat, hfold]
    rcases component_cases c with hc | rfl | ⟨hname, hup, hskip⟩
    · obtain ⟨hnames, hups⟩ := count_name hc cs
      refine ⟨c :: ns, resolveStep_name hc _, ?_, List.forall_mem_cons.mpr ⟨hc, hns⟩⟩
      rw [List.length_cons]
      omega
    · obtain ⟨hnames, hups⟩ := count_up cs
      cases ns with
      | nil =>
        rw [List.length_nil] at hlen
        omega
      | cons n ns =>
        rw [List.forall_mem_cons] at hns
        refine ⟨ns, resolveStep_up hns.1 _, ?_, hns.2⟩
        rw [List.length_cons] at hlen
        omega
    · obtain ⟨hnames, hups⟩ := count_skip hname hup cs
      exact ⟨ns, hskip _, by omega, hns⟩

/-- **What is at the bottom was come to, and never left.** -/
theorem exists_of_resolve_eq {dir : Bytes} (hdir : isName dir) {cs : List Bytes} :
    ∀ {ns : List Bytes}, resolve cs = ns ++ [dir] → ∃ pre post, cs = pre ++ dir :: post ∧
      resolve pre = [] ∧ NeverAbove post ∧ ns.length + ups post = names post := by
  induction cs using List.reverseRecOn with
  | nil =>
    intro ns h
    exact absurd h (by simp [resolve])
  | append_singleton cs c ih =>
    intro ns h
    rw [resolve_concat] at h
    have hconcat : ∀ ns', resolve cs = ns' ++ [dir] →
        (∀ post, ns'.length + ups post = names post →
          ns.length + ups (post ++ [c]) = names (post ++ [c])) →
        ∃ pre post, cs ++ [c] = pre ++ dir :: post ∧ resolve pre = [] ∧ NeverAbove post ∧
          ns.length + ups post = names post := by
      intro ns' hns' hlen
      obtain ⟨pre, post, rfl, hpre, hpost, hcount⟩ := ih hns'
      have hcount' := hlen post hcount
      exact ⟨pre, post ++ [c], by simp, hpre, neverAbove_concat.mpr ⟨hpost, by omega⟩, hcount'⟩
    rcases component_cases c with hc | rfl | ⟨hname, hup, hskip⟩
    · rw [resolveStep_name hc] at h
      cases ns with
      | nil =>
        obtain ⟨rfl, hnil⟩ := List.cons.inj h
        exact ⟨cs, [], rfl, hnil, fun pre hpre => by simp [List.prefix_nil.mp hpre, ups], rfl⟩
      | cons n ns =>
        obtain ⟨rfl, htail⟩ := List.cons.inj h
        refine hconcat ns htail fun post hcount => ?_
        obtain ⟨hnames, hups⟩ := count_name hc post
        rw [List.length_cons]
        omega
    · -- a `".."` took back a name, as otherwise one would be left at the bottom
      obtain ⟨stack, k, hcs, hstack⟩ := exists_resolve_eq cs
      rw [hcs] at h
      cases stack with
      | nil =>
        rw [List.nil_append, resolveStep_up_replicate] at h
        have hmem : dir ∈ List.replicate (k + 1) dotdot := by simp [h]
        exact absurd (List.eq_of_mem_replicate hmem) (ne_dotdot_of_isName hdir)
      | cons n stack =>
        rw [List.cons_append, resolveStep_up (List.forall_mem_cons.mp hstack).1] at h
        refine hconcat (n :: ns) (by rw [hcs, List.cons_append, h, List.cons_append]) ?_
        intro post hcount
        obtain ⟨hnames, hups⟩ := count_up post
        rw [List.length_cons] at hcount
        omega
    · rw [hskip] at h
      refine hconcat ns h fun post hcount => ?_
      obtain ⟨hnames, hups⟩ := count_skip hname hup post
      omega

/-- **Which paths are inside a directory**: those that come to it, and from there on never climb
above it and end below it. -/
theorem inside_iff {dir : Bytes} (hdir : isName dir) (path : Bytes) :
    Inside dir path ↔ ∃ pre post, components path = pre ++ dir :: post ∧ resolve pre = [] ∧
      Stays post := by
  constructor
  · rintro ⟨c, cs, h⟩
    have hresolve : resolve (components path) = (c :: cs).reverse ++ [dir] := by
      rw [← List.reverse_cons, ← h, lexicallyNormal, List.reverse_reverse]
    obtain ⟨pre, post, hsplit, hpre, hpost, hcount⟩ := exists_of_resolve_eq hdir hresolve
    refine ⟨pre, post, hsplit, hpre, hpost, ?_⟩
    rw [List.length_reverse, List.length_cons] at hcount
    omega
  · rintro ⟨pre, post, hsplit, hpre, hpost⟩
    obtain ⟨ns, hfold, hcount, -⟩ := exists_foldl_eq hpost.neverAbove [dir]
    have hresolve : resolve (components path) = ns ++ [dir] := by
      rw [hsplit, resolve, List.foldl_append, ← resolve, hpre, List.foldl_cons,
        resolveStep_name hdir, hfold]
    have hne : ns ≠ [] := by
      rintro rfl
      have hbelow := hpost.below
      rw [List.length_nil] at hcount
      omega
    obtain ⟨c, cs, hcs⟩ := List.exists_cons_of_ne_nil (List.reverse_ne_nil_iff.mpr hne)
    exact ⟨c, cs, by rw [lexicallyNormal, hresolve, List.reverse_append, hcs]; rfl⟩

/-- Names alone stay. -/
theorem stays_of_names {cs : List Bytes} (hcs : ∀ c ∈ cs, isName c) (hne : cs ≠ []) : Stays cs := by
  have hups : ∀ pre, pre <+: cs → ups pre = 0 := fun pre hpre =>
    List.count_eq_zero.mpr fun hmem => absurd (hcs _ (hpre.subset hmem)) (by decide)
  have hnames : names cs = cs.length := List.countP_eq_length.mpr hcs
  refine ⟨fun pre hpre => (hups pre hpre).le.trans (Nat.zero_le _), ?_⟩
  rw [hups cs (List.prefix_refl cs), hnames]
  exact List.length_pos_iff.mpr hne

theorem components_append {c : Bytes} (hc : slash ∉ c) (rest : Bytes) :
    components (c ++ slash :: rest) = c :: components rest :=
  List.splitOn_append_cons_self_of_not_mem hc rest

end LexicalPath

end AsioSamples
