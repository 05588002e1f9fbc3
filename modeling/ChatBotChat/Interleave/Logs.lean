/-
What a program makes of the replies it gets.

`Gives p log a` says that the replies of `log` lead `p` through exactly the calls of
`log` to the value `a`.  What ran between two calls does not matter, so that a log
can be cut where the program calls a part of itself (`gives_bind`).

* `RunWith.gives` — a request that has been answered has a log that gives its answer.
-/
import ChatBotChat.Interleave.Runs

namespace Interleave

variable {C : Type} {R : C → Type} {σ ρ α β S ι ε : Type}

namespace Prog

/-- The replies of the log, newest first, lead the program through its calls to `a`. -/
inductive Gives : Prog C R α → Past C R → α → Prop
  | ret {a : α} : Gives (.ret a) [] a
  | call {c : C} {k : R c → Prog C R α} {r : R c} {log : Past C R} {a : α} :
      Gives (k r) log a → Gives (.call c k) (log ++ [⟨c, r⟩]) a
  | loop {β S : Type} {body : S → Prog C R (S ⊕ β)} {s : S} {k : β → Prog C R α}
      {log : Past C R} {a : α} : Gives (unroll body s k) log a → Gives (.loop body s k) log a

variable {log : Past C R} {a : α}

theorem gives_pure_iff {b : α} : Gives (pure b : Prog C R α) log a ↔ log = [] ∧ a = b := by
  constructor
  · intro h
    cases h
    exact ⟨rfl, rfl⟩
  · rintro ⟨rfl, rfl⟩
    exact .ret

theorem gives_call_iff {c : C} {k : R c → Prog C R α} :
    Gives (.call c k) log a ↔ ∃ r log', log = log' ++ [⟨c, r⟩] ∧ Gives (k r) log' a := by
  constructor
  · intro h
    cases h with
    | call h => exact ⟨_, _, rfl, h⟩
  · rintro ⟨r, log', rfl, h⟩
    exact .call h

/-- One call, and the rest of the program. -/
theorem gives_step_iff {c : C} {k : R c → Prog C R α} :
    Gives (perform c >>= k) log a ↔ ∃ r log', log = log' ++ [⟨c, r⟩] ∧ Gives (k r) log' a :=
  gives_call_iff

theorem Gives.bind_inv {f : α → Prog C R β} {b : β} {q : Prog C R β} (h : Gives q log b) :
    ∀ {p : Prog C R α}, q = p.bind f →
      ∃ a first rest, log = rest ++ first ∧ Gives p first a ∧ Gives (f a) rest b := by
  induction h with
  | ret =>
    intro p hq
    cases p with
    | ret a =>
      have hf : Prog.ret _ = f a := hq
      exact ⟨a, [], [], rfl, .ret, hf ▸ .ret⟩
    | call c k => cases hq
    | loop body s k => cases hq
  | @call c k r log b hk ih =>
    intro p hq
    cases p with
    | ret a =>
      have hf : Prog.call c k = f a := hq
      exact ⟨a, [], _, (List.append_nil _).symm, .ret, hf ▸ .call hk⟩
    | call c' k' =>
      rw [Prog.bind] at hq
      cases hq
      obtain ⟨a, first, rest, rfl, hfirst, hrest⟩ := ih rfl
      exact ⟨a, _, rest, List.append_assoc _ _ _, .call hfirst, hrest⟩
    | loop body s k' => cases hq
  | @loop β' S body s k log b hunroll ih =>
    intro p hq
    cases p with
    | ret a =>
      have hf : Prog.loop body s k = f a := hq
      exact ⟨a, [], _, (List.append_nil _).symm, .ret, hf ▸ .loop hunroll⟩
    | call c k' => cases hq
    | loop body' s' k' =>
      rw [Prog.bind] at hq
      cases hq
      obtain ⟨a, first, rest, rfl, hfirst, hrest⟩ := ih (unroll_bind _ _ _ _).symm
      exact ⟨a, first, rest, rfl, .loop hfirst, hrest⟩

theorem Gives.bind {p : Prog C R α} {f : α → Prog C R β} {first rest : Past C R} {b : β}
    (h : Gives p first a) (hrest : Gives (f a) rest b) : Gives (p.bind f) (rest ++ first) b := by
  induction h with
  | ret => simpa [Prog.bind] using hrest
  | call _ ih =>
    rw [← List.append_assoc]
    exact .call (ih hrest)
  | @loop β' S body s k log a _ ih =>
    refine .loop ?_
    rw [← unroll_bind]
    exact ih hrest

/-- **A log can be cut where a program calls another.** -/
theorem gives_bind_iff {p : Prog C R α} {f : α → Prog C R β} {b : β} :
    Gives (p >>= f) log b ↔
      ∃ a first rest, log = rest ++ first ∧ Gives p first a ∧ Gives (f a) rest b := by
  constructor
  · exact fun h => h.bind_inv rfl
  · rintro ⟨a, first, rest, rfl, hfirst, hrest⟩
    exact hfirst.bind hrest

/-- **A program leaves a log that gives what it returns.** -/
theorem upholds_gives (p : Prog C R α) : ∀ past : Past C R,
    p.Upholds (fun _ _ => True) past fun past' a => ∃ log, past' = log ++ past ∧ Gives p log a := by
  induction p with
  | ret a => exact fun past => ⟨[], rfl, .ret⟩
  | call c k ih =>
    refine fun past => ⟨trivial, fun r => (ih r _).mono ?_⟩
    rintro past' a ⟨log, rfl, hlog⟩
    exact ⟨log ++ [⟨c, r⟩], by simp, .call hlog⟩
  | loop body s k ihbody ihk =>
    intro past
    -- what has been logged so far leads the loop to `s'`
    refine ⟨fun past' s' => ∃ log, past' = log ++ past ∧
      ∀ rest a, Gives (.loop body s' k) rest a → Gives (.loop body s k) (rest ++ log) a,
      ⟨[], rfl, fun rest a h => by simpa using h⟩, ?_⟩
    rintro past' s' ⟨log, rfl, hlog⟩
    refine (ihbody s' _).mono ?_
    rintro past'' (s'' | b) ⟨log', rfl, hbody⟩
    · refine ⟨log' ++ log, by simp, fun rest a hrest => ?_⟩
      rw [← List.append_assoc]
      exact hlog _ a (.loop (hbody.bind hrest))
    · refine (ihk b _).mono ?_
      rintro past₃ a ⟨log'', rfl, hk⟩
      refine ⟨log'' ++ (log' ++ log), by simp, ?_⟩
      rw [← List.append_assoc]
      exact hlog _ a (.loop (hbody.bind hk))

end Prog

/-- **Whatever ran in between, the log of a request gives its answer.** -/
theorem System.RunWith.gives {sys : System C R σ ρ α ι ε}
    {ok : Config C R σ ρ α → Action ρ ι ε → Prop} {s : σ} {c : Config C R σ ρ α}
    (h : sys.RunWith ok (.initial s) c) {i : ℕ} {t : Thread C R ρ α} {a : α}
    (ht : c.threads[i]? = some t) (ha : t.returned = some a) :
    (sys.body t.req).Gives (pastOf i c.trace) a := by
  have hbody : ∀ r, (sys.body r).Upholds (fun _ _ => True) [] fun past a =>
      (sys.body r).Gives past a := by
    intro r
    refine (Prog.upholds_gives _ []).mono ?_
    rintro past a ⟨log, rfl, hlog⟩
    rwa [List.append_nil]
  have hup : System.Upheld (fun _ _ _ => True) (fun r past a => (sys.body r).Gives past a) c :=
    h.upheld hbody
  exact hup.returned ht ha

end Interleave
