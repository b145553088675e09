import Mathlib.Data.List.Induction

/-!
# The sliding-window limiter (`broker-api/src/rate_limit.rs`)

`check` keeps the times of the checks it allowed, per key, and forgets them when it sees them
outside the window: those of its key, and once in a while those of all keys.

* **`run_exact`** — what is kept is the history of allowed checks as far as it still counts, so that
  each decision is a function of the history;
* **`limiter_is_exact`** — no interval of the window's length has more than `max` allowed checks of
  a key, a check is denied only if the window before it has that many, and the clean-up of the map
  changes no decision;
* **`keys_are_independent`** — a key gets the decisions that it gets alone.
-/

namespace BetterMQ

open List

/-- The entries of the map, one for each key. -/
abbrev Hits := List (String × List Nat)

def Hits.get (hits : Hits) (key : String) : List Nat :=
  hits.flatMap fun e => if e.1 = key then e.2 else []

/-- The checks so far, with their decisions. -/
abbrev CheckLog := List (String × Nat × Bool)

structure RateLimiter where
  max : UInt32
  window : Nat

namespace RateLimiter

variable (l : RateLimiter)

/-- `retain(|t| now.duration_since(*t) < self.window)`. -/
def retain (now : Nat) (times : List Nat) : List Nat := times.filter fun t => now - t < l.window

def cleanup (now : Nat) (hits : Hits) : Hits :=
  if 10000 < hits.length then
    (hits.map fun e => (e.1, l.retain now e.2)).filter fun e => e.2 ≠ []
  else hits

/-- `check`, with its clean-up of the map as a parameter. -/
def checkWith (clean : Nat → Hits → Hits) (hits : Hits) (key : String) (now : Nat) : Bool × Hits :=
  let entries := l.retain now (hits.get key)
  let others := hits.filter fun e => e.1 ≠ key
  if l.max ≤ UInt32.ofNat entries.length then (false, (key, entries) :: others)
  else (true, clean now ((key, entries ++ [now]) :: others))

def check : Hits → String → Nat → Bool × Hits := l.checkWith l.cleanup

/-- The map after a sequence of checks, and their decisions. -/
def run (clean : Nat → Hits → Hits) (checks : List (String × Nat)) : Hits × CheckLog :=
  checks.foldl (fun s c =>
    let r := l.checkWith clean s.1 c.1 c.2
    (r.2, s.2 ++ [(c.1, c.2, r.1)])) ([], [])

/-- The times of the allowed checks of a key. -/
def allowed (log : CheckLog) (key : String) : List Nat :=
  log.flatMap fun e => if e.1 = key ∧ e.2.2 = true then [e.2.1] else []

/-- Checks at nondecreasing times. -/
abbrev InOrder (checks : List (String × Nat)) : Prop := checks.Pairwise fun c d => c.2 ≤ d.2

/-- A clean-up that forgets only what is outside the window. -/
def Sound (clean : Nat → Hits → Hits) : Prop :=
  ∀ now n hits key, now ≤ n → l.retain n ((clean now hits).get key) = l.retain n (hits.get key)

variable {l} {clean : Nat → Hits → Hits} {s : Hits × CheckLog}
  {checks : List (String × Nat)} {key : String} {now n : Nat}

/-! ## What a step keeps -/

theorem retain_retain (h : now ≤ n) (times : List Nat) :
    l.retain n (l.retain now times) = l.retain n times := by
  unfold retain
  rw [filter_filter]
  refine filter_congr fun t _ => ?_
  rw [Bool.and_eq_left_iff_imp]
  simp only [decide_eq_true_eq]
  omega

@[grind =]
theorem retain_nil : l.retain n [] = [] := rfl

theorem retain_append (xs ys : List Nat) :
    l.retain n (xs ++ ys) = l.retain n xs ++ l.retain n ys := filter_append ..

theorem get_cons (e : String × List Nat) (hits : Hits) (k : String) :
    Hits.get (e :: hits) k = (if e.1 = k then e.2 else []) ++ hits.get k := flatMap_cons

theorem get_put (hits : Hits) (entries : List Nat) (k : String) :
    Hits.get ((key, entries) :: hits.filter fun e => e.1 ≠ key) k
      = if k = key then entries else hits.get k := by
  have hothers : Hits.get (hits.filter fun e => e.1 ≠ key) k
      = if k = key then [] else hits.get k := by
    induction hits with
    | nil => exact (ite_self _).symm
    | cons e hits ih => grind [get_cons]
  rw [get_cons]
  grind

theorem allowed_snoc (log : CheckLog) (allow : Bool) (k : String) :
    allowed (log ++ [(key, now, allow)]) k
      = allowed log k ++ if key = k ∧ allow = true then [now] else [] := by
  simp [allowed]

theorem cleanup_sound : l.Sound l.cleanup := by
  intro now n hits key hle
  unfold cleanup
  split
  · rename_i hlong
    clear hlong
    induction hits with
    | nil => rfl
    | cons e hits ih =>
      have hentry := retain_retain (l := l) hle e.2
      by_cases hkey : e.1 = key <;> by_cases hempty : l.retain now e.2 = [] <;>
        simp_all [get_cons, retain_append, retain_nil]
  · rfl

/-- What is kept of a key is what still counts of its allowed checks, and these keep the limit. -/
structure Inv (l : RateLimiter) (s : Hits × CheckLog) (now : Nat) : Prop where
  kept : ∀ n key, now ≤ n → l.retain n (s.1.get key) = l.retain n (allowed s.2 key)
  past : ∀ key, ∀ t ∈ allowed s.2 key, t ≤ now
  bound : ∀ key a, (allowed s.2 key).countP (fun t => a ≤ t ∧ t < a + l.window) ≤ l.max.toNat

/-- **A decision is a function of the history.** -/
theorem decision_eq (hinv : l.Inv s now) :
    (l.checkWith clean s.1 key now).1
      = decide ((l.retain now (allowed s.2 key)).length < l.max.toNat) := by
  have hbound : (l.retain now (allowed s.2 key)).length ≤ l.max.toNat := by
    refine Nat.le_trans ?_ (hinv.bound key (now + 1 - l.window))
    rw [retain, ← countP_eq_length_filter]
    refine countP_mono_left fun t ht hin => ?_
    have := hinv.past key t ht
    simp only [decide_eq_true_eq] at hin ⊢
    omega
  have hsize : (UInt32.ofNat (l.retain now (allowed s.2 key)).length).toNat
      = (l.retain now (allowed s.2 key)).length := by
    refine UInt32.toNat_ofNat_of_lt' (Nat.lt_of_le_of_lt hbound ?_)
    exact l.max.toNat_lt
  unfold checkWith
  rw [hinv.kept now key (Nat.le_refl _)]
  simp only [UInt32.le_iff_toNat_le, hsize]
  split <;> simp <;> omega

theorem Inv.check (key : String) (hclean : l.Sound clean) (hinv : l.Inv s now) :
    let r := l.checkWith clean s.1 key now
    l.Inv (r.2, s.2 ++ [(key, now, r.1)]) now := by
  have hdecision : (l.checkWith clean s.1 key now).1 = _ := decision_eq hinv
  refine ⟨fun n k hn => ?_, fun k t ht => ?_, fun k a => ?_⟩
  · have hkept := hinv.kept n k hn
    rw [allowed_snoc]
    unfold checkWith
    dsimp only
    split
    · rw [get_put]
      grind [retain_retain]
    · rw [hclean _ _ _ _ hn, get_put]
      grind [retain_append, retain_retain]
  · have := hinv.past k t
    grind [allowed_snoc]
  · rw [allowed_snoc, countP_append]
    have hbound := hinv.bound k a
    -- the allowed checks of an interval that ends now are among those that still count
    have hrecent (hin : a ≤ now ∧ now < a + l.window) :
        (allowed s.2 k).countP (fun t => a ≤ t ∧ t < a + l.window)
          ≤ (l.retain now (allowed s.2 k)).length := by
      rw [retain, ← countP_eq_length_filter]
      refine countP_mono_left fun t ht hin => ?_
      simp only [decide_eq_true_eq] at hin ⊢
      omega
    split
    · rw [countP_singleton]
      grind
    · exact hbound

theorem run_snoc (key : String) (now : Nat) :
    l.run clean (checks ++ [(key, now)]) =
      let r := l.checkWith clean (l.run clean checks).1 key now
      (r.2, (l.run clean checks).2 ++ [(key, now, r.1)]) := foldl_append

theorem inOrder_snoc {c : String × Nat} :
    InOrder (checks ++ [c]) ↔ InOrder checks ∧ ∀ d ∈ checks, d.2 ≤ c.2 := by
  simp [InOrder, pairwise_append]

theorem run_exact (hclean : l.Sound clean) (hsorted : InOrder checks) :
    ∀ now, (∀ c ∈ checks, c.2 ≤ now) → l.Inv (l.run clean checks) now := by
  induction checks using List.reverseRecOn with
  | nil => exact fun _ _ => ⟨fun _ _ _ => rfl, nofun, fun _ _ => Nat.zero_le _⟩
  | append_singleton checks c ih =>
    intro last hlast
    rw [inOrder_snoc] at hsorted
    have hbefore : l.Inv (l.run clean checks) c.2 := ih hsorted.1 c.2 hsorted.2
    have hle : c.2 ≤ last := hlast c (by simp)
    have hafter := hbefore.check c.1 hclean
    rw [run_snoc]
    exact ⟨fun n key hn => hafter.kept n key (by omega),
      fun key t ht => Nat.le_trans (hafter.past key t ht) hle, hafter.bound⟩

/-- Two clean-ups that forget only what is outside the window give the same decisions. -/
theorem run_log_eq {other : Nat → Hits → Hits} (hclean : l.Sound clean) (hother : l.Sound other)
    (hsorted : InOrder checks) :
    (l.run clean checks).2 = (l.run other checks).2 := by
  induction checks using List.reverseRecOn with
  | nil => rfl
  | append_singleton checks c ih =>
    obtain ⟨hsorted, hle⟩ := inOrder_snoc.1 hsorted
    rw [run_snoc, run_snoc]
    dsimp only
    rw [decision_eq (run_exact hclean hsorted _ hle), decision_eq (run_exact hother hsorted _ hle),
      ih hsorted]

/-- **The limiter is exact**, for every sequence of checks at nondecreasing times. -/
theorem limiter_is_exact (l : RateLimiter) (hsorted : InOrder checks) :
    (∀ key a, (allowed (l.run l.cleanup checks).2 key).countP (fun t => a ≤ t ∧ t < a + l.window)
      ≤ l.max.toNat) ∧
    (∀ before key now, before ++ [(key, now)] <+: checks →
      (l.check (l.run l.cleanup before).1 key now).1 = false →
        l.max.toNat ≤ (allowed (l.run l.cleanup before).2 key).countP
          (fun t => now - t < l.window)) ∧
    (l.run l.cleanup checks).2 = (l.run (fun _ hits => hits) checks).2 := by
  refine ⟨?_, fun before key now hpre hdenied => ?_,
    run_log_eq cleanup_sound (fun _ _ _ _ _ => rfl) hsorted⟩
  · refine (run_exact cleanup_sound hsorted ((checks.map (·.2)).max?.getD 0) fun c hc => ?_).bound
    exact le_max?_getD_of_mem (mem_map_of_mem hc)
  · obtain ⟨hbefore, hle⟩ := inOrder_snoc.1 (hsorted.sublist hpre.sublist)
    have hinv := run_exact (l := l) cleanup_sound hbefore now hle
    rw [check, decision_eq hinv, decide_eq_false_iff_not, retain, ← countP_eq_length_filter]
      at hdenied
    exact Nat.le_of_not_lt hdenied

theorem one_check_per_window :
    (run ⟨1, 10⟩ (cleanup ⟨1, 10⟩) [("a", 0), ("a", 5), ("a", 10)]).2
      = [("a", 0, true), ("a", 5, false), ("a", 10, true)] := by
  rw [(limiter_is_exact _ (by decide)).2.2]
  decide

theorem allowed_filter (log : CheckLog) (key : String) :
    allowed (log.filter (·.1 = key)) key = allowed log key := by
  induction log with
  | nil => rfl
  | cons e log ih =>
    by_cases hkey : e.1 = key <;> simp_all [allowed]

/-- **Keys do not disturb each other**: a key gets the decisions that it gets alone, although it
shares the map and its clean-up with all other keys. -/
theorem keys_are_independent (l : RateLimiter) (key : String) (hsorted : InOrder checks) :
    (l.run l.cleanup checks).2.filter (·.1 = key)
      = (l.run l.cleanup (checks.filter (·.1 = key))).2 := by
  induction checks using List.reverseRecOn with
  | nil => rfl
  | append_singleton checks c ih =>
    obtain ⟨hsorted, hle⟩ := inOrder_snoc.1 hsorted
    have hsame := ih hsorted
    rw [run_snoc]
    by_cases hkey : c.1 = key
    · subst hkey
      -- both runs decide by what the key was allowed before
      have hown : ∀ d ∈ checks.filter (·.1 = c.1), d.2 ≤ c.2 := fun d h => hle d (mem_filter.1 h).1
      simp only [filter_append, filter_cons, decide_true, if_true, filter_nil]
      rw [run_snoc, decision_eq (run_exact cleanup_sound hsorted _ hle)]
      dsimp only
      rw [decision_eq (run_exact cleanup_sound (hsorted.filter _) _ hown), ← hsame, allowed_filter]
    · simpa [hkey] using hsame

theorem other_key_changes_nothing :
    (run ⟨1, 10⟩ (cleanup ⟨1, 10⟩) [("a", 0), ("b", 3), ("a", 5)]).2.filter (·.1 = "a")
      = [("a", 0, true), ("a", 5, false)] := by
  rw [keys_are_independent _ _ (by decide)]
  decide

end RateLimiter

end BetterMQ
