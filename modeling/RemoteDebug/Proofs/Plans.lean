import RemoteDebug.Proofs.Breakpoints
import RemoteDebug.Proofs.LoadOrder
import RemoteDebug.Proofs.Spending
import RemoteDebug.Proofs.Unconnected
import RemoteDebug.Proofs.Watched

/-!
# Requests for breakpoints from end to end

A request for breakpoints leads to a plan : breakpoints to remove and lines to add.
`Session.Differs` says what the plan has to be, without saying how it is worked out. If one of the
lines cannot be resolved, nothing is done. Otherwise the plan is carried out up to the first command
that fails (`Carries`), and the breakpoints of the session are those of before with that part of the
plan applied. When all of it is done, the breakpoints of the source are on the lines of the request,
and the same request finds nothing left to change (`setBreakpoints_carries_out_plan`).

The connection may be lost between two commands. Then the next one fails without being sent
(`setBreakpoints_fails_unsent`).
-/

namespace RemoteDebug

/-! ## The plan -/

/-- What a request for breakpoints asks for : to remove the breakpoints of the source that it does
not name, in their order, and to have breakpoints on the lines that have none, in the order in which
it names them first. -/
structure Session.Differs (s : Session) (lines : List UInt32) (source : String)
    (removed : List Location) (wanted : List UInt32) : Prop where
  removed_eq : removed = s.breakpoints.filter fun b => b.source = source ∧ b.line ∉ lines
  mem_wanted_iff : ∀ line,
    line ∈ wanted ↔ line ∈ lines ∧ (source, line) ∉ s.breakpoints.map fun b => (b.source, b.line)
  order : wanted.Pairwise fun a b => lines.idxOf a < lines.idxOf b

theorem Session.differs (s : Session) (lines : List UInt32) (source : String) :
    s.Differs lines source (s.toRemove lines source) (s.toAdd lines source) where
  removed_eq := List.filter_congr fun b _ => Bool.eq_iff_iff.mpr (by simp)
  mem_wanted_iff line := by
    simp only [toAdd, requested, List.mem_filter, List.mem_eraseDups, Bool.not_eq_true',
      List.any_eq_false, List.mem_map, Prod.mk.injEq, not_exists, not_and, Location.isAt,
      Bool.and_eq_true, beq_iff_eq]
  order := (pairwise_requested lines).sublist List.filter_sublist

/-! ## Locations -/

/-- A list is mapped to the end, or up to the first element that fails. -/
theorem mapM_cases {ε α β : Type} (f : α → Except ε β) (as : List α) :
    (∃ bs, as.mapM f = .ok bs ∧ as.map f = bs.map .ok) ∨
      ∃ pre a post e, as = pre ++ a :: post ∧ (∀ x ∈ pre, ∃ b, f x = .ok b) ∧ f a = .error e ∧
        as.mapM f = .error e := by
  induction as with
  | nil => exact Or.inl ⟨[], rfl, rfl⟩
  | cons a as ih =>
    rw [List.mapM_cons]
    cases ha : f a with
    | error e => exact Or.inr ⟨[], a, as, e, rfl, nofun, ha, rfl⟩
    | ok b =>
      rcases ih with ⟨bs, hbs, hmap⟩ | ⟨pre, a', post, e, rfl, hpre, ha', hfail⟩
      · exact Or.inl ⟨b :: bs, by rw [hbs]; rfl, by rw [List.map_cons, List.map_cons, ha, hmap]⟩
      · refine Or.inr ⟨a :: pre, a', post, e, rfl, ?_, ha', by rw [hfail]; rfl⟩
        exact List.forall_mem_cons.mpr ⟨⟨b, ha⟩, hpre⟩

/-! ## Edits -/

namespace Edit

theorem foldl_add (locations breakpoints : List Location) :
    (locations.map Edit.add).foldl Edit.apply breakpoints = breakpoints ++ locations := by
  induction locations generalizing breakpoints with
  | nil => simp
  | cons l locations ih =>
    rw [List.map_cons, List.foldl_cons, ih, Edit.apply, List.append_assoc, List.singleton_append]

/-- The first `n` steps of a plan remove the breakpoints that they name, and no others, and add
theirs at the end. -/
theorem foldl_take_plan {breakpoints removed : List Location}
    (hk : (breakpoints.map Location.key).Nodup) (hr : ∀ l ∈ removed, l ∈ breakpoints)
    (added : List Location) (n : Nat) :
    ((removed.map Edit.remove ++ added.map Edit.add).take n).foldl Edit.apply breakpoints =
      breakpoints.filter (· ∉ removed.take n) ++ added.take (n - removed.length) := by
  rw [List.take_append, List.length_map, ← List.map_take, ← List.map_take, List.foldl_append,
    foldl_remove, foldl_add]
  congr 1
  refine List.filter_congr fun b hb => ?_
  have hmem : b.key ∈ (removed.take n).map Location.key ↔ b ∈ removed.take n := by
    constructor
    · intro hkey
      obtain ⟨l, hl, he⟩ := List.mem_map.mp hkey
      rwa [← List.inj_on_of_nodup_map hk (hr l (List.mem_of_mem_take hl)) hb he]
    · exact fun hl => List.mem_map_of_mem hl
  exact decide_eq_decide.mpr (not_congr hmem)

end Edit

/-! ## Carrying out a plan -/

/-- In a session `s`, with the watch at `w`, edits were carried out that the device was asked for
one after the other. The first `n` of them are made, with the exchanges `x`, and `r` is what it
comes to. -/
inductive Carries (timeout : UInt64) (w : Watch) (s : Session) :
    List Edit → (n : Nat) → List (Bytes × Outcome) → Except Failure Unit → Prop where
  | nil : Carries timeout w s [] 0 [] (.ok ())
  /-- The connection is lost before the request can be sent. -/
  | lost {edit : Edit} {edits : List Edit} (hlost : w.Lost s) :
      Carries timeout w s (edit :: edits) 0 [] (.error .connectionClosed)
  | failed {edit : Edit} {edits : List Edit} {o : Outcome} {e : Failure}
      (ho : o.answer edit.packet.opcode timeout = .error e) :
      Carries timeout w s (edit :: edits) 0 [(edit.packet.encode, o)] (.error e)
  | made {edit : Edit} {edits : List Edit} {o : Outcome} {reply : Wire.Reply} {n : Nat}
      {x : List (Bytes × Outcome)} {r : Except Failure Unit}
      (ho : o.answer edit.packet.opcode timeout = .ok reply)
      (rest : Carries timeout w s edits n x r) :
      Carries timeout w s (edit :: edits) (n + 1) ((edit.packet.encode, o) :: x) r

namespace Carries

variable {timeout : UInt64} {w : Watch} {s : Session} {edits : List Edit} {n : Nat}
  {x : List (Bytes × Outcome)} {r : Except Failure Unit}

theorem le (h : Carries timeout w s edits n x r) : n ≤ edits.length := by
  induction h with
  | nil => exact Nat.le_refl 0
  | lost | failed => exact Nat.zero_le _
  | made _ _ ih => exact Nat.succ_le_succ ih

theorem accepted (h : Carries timeout w s edits n x r) :
    ∀ y ∈ x.take n, y.2.accepted (y.1.headD 0) = true := by
  induction h with
  | nil | lost | failed => exact nofun
  | @made edit _ o _ _ _ _ ho _ ih =>
    refine List.forall_mem_cons.mpr ⟨?_, ih⟩
    change o.accepted edit.packet.opcode = true
    rw [Outcome.accepted_eq _ timeout, ho]
    rfl

/-- All edits are made, each of them was asked for, and nothing fails. -/
theorem done (h : Carries timeout w s edits n x r) (hn : n = edits.length) :
    r = .ok () ∧ x.map Prod.fst = edits.map fun edit => edit.packet.encode := by
  induction h with
  | nil => exact ⟨rfl, rfl⟩
  | lost | failed => cases hn
  | made _ _ ih =>
    obtain ⟨hr, hx⟩ := ih (Nat.succ.inj hn)
    exact ⟨hr, congrArg (_ :: ·) hx⟩

/-- An edit is not made because its command fails. The command is the last to be sent, or the
connection is lost before it can be. -/
theorem fails (h : Carries timeout w s edits n x r) (hn : n < edits.length) :
    ∃ e, r = .error e ∧
      ((x.map Prod.fst = (edits.take (n + 1)).map (fun edit => edit.packet.encode) ∧
        ∃ y, x[n]? = some y ∧ y.2.answer (y.1.headD 0) timeout = .error e) ∨
      (x.map Prod.fst = (edits.take n).map (fun edit => edit.packet.encode) ∧
        e = .connectionClosed ∧ w.Lost s)) := by
  induction h with
  | nil => cases hn
  | lost hlost => exact ⟨_, rfl, Or.inr ⟨rfl, rfl, hlost⟩⟩
  | failed ho => exact ⟨_, rfl, Or.inl ⟨rfl, _, rfl, ho⟩⟩
  | made _ _ ih =>
    obtain ⟨e, hr, ⟨hx, y, hy, he⟩ | ⟨hx, he⟩⟩ := ih (Nat.lt_of_succ_lt_succ hn)
    · exact ⟨e, hr, Or.inl ⟨congrArg (_ :: ·) hx, y, hy, he⟩⟩
    · exact ⟨e, hr, Or.inr ⟨congrArg (_ :: ·) hx, he⟩⟩

end Carries

/-- The session has the configuration and the breakpoints that are named. -/
def Session.Holds (c : Config) (breakpoints : List Location) (s : Session) : Prop :=
  s.config = c ∧ s.breakpoints = breakpoints

theorem Session.Holds.lasts (c : Config) (breakpoints : List Location) :
    Lasts (Session.Holds c breakpoints) := by
  refine ⟨fun status hs => hs, fun {s} cause hs => ?_⟩
  simp only [Session.apply]
  split <;> exact hs

namespace Op

variable {call : Call} {w : Watch} {c : Config}

theorem ends_carryOut (edits : List Edit) (breakpoints : List Location)
    (x : List (Bytes × Outcome)) :
    (carryOut edits).Ends (some call) (Traced call (Session.Holds c breakpoints) x) w
      fun v r h s => ∃ n y, Carries c.responseTimeout v s edits n y r ∧
        Traced call (Session.Holds c ((edits.take n).foldl Edit.apply breakpoints)) (x ++ y)
          h s := by
  induction edits generalizing breakpoints x w with
  | nil => exact ends_pure fun hx => ⟨0, [], .nil, by simpa using hx⟩
  | cons edit edits ih =>
    refine ends_bind (ends_command_traced edit.packet (Session.Holds.lasts c breakpoints)
      fun hs => congrArg Config.responseTimeout hs.1) ?_ fun v reply => ?_
    · rintro v e h s (⟨hx, he, hlost⟩ | ⟨o, he, hx⟩)
      · obtain rfl := Except.error.inj he
        exact ⟨0, [], .lost hlost, by simpa using hx⟩
      · exact ⟨0, _, .failed he.symm, hx⟩
    · refine Ends.mono (P := fun h s => ∃ o,
        o.answer edit.packet.opcode c.responseTimeout = .ok reply ∧
          Traced call (Session.Holds c breakpoints) (x ++ [(edit.packet.encode, o)]) h s) ?_ ?_ id
      · refine ends_of_exists fun o => ends_of_imp fun ho => ?_
        -- The edit is noted, and the others start from there.
        refine ends_act_bind (fun hx => hx.acted fun hs => ⟨hs.1, congrArg edit.apply hs.2⟩)
          ((ih _ _).mono id ?_)
        rintro u r h s ⟨n, y, hc, hx⟩
        exact ⟨n + 1, _ :: y, .made ho hc, by simpa using hx⟩
      · rintro h s (⟨-, he, -⟩ | ⟨o, he, hx⟩)
        · cases he
        · exact ⟨o, he.symm, hx⟩

theorem spends_carryOut (edits : List Edit) :
    (carryOut edits).Spends c (fun _ => 1) (2 * edits.length) := by
  induction edits with
  | nil => trivial
  | cons edit edits ih =>
    rw [List.length_cons, Nat.mul_succ, Nat.add_comm]
    refine spends_bind (spends_command edit.packet) fun _ => ?_
    exact spends_bind_of_free (show (act (.edited edit)).Spends c _ 0 from trivial) fun _ => ih

theorem spends_carryOut_bind (edits : List Edit) (update : Update) :
    (carryOut edits >>= fun _ => pure update).Spends c (fun _ => 1) (2 * edits.length) :=
  spends_bind (n := 0) (spends_carryOut edits) fun _ => trivial

end Op

/-! ## Requests -/

theorem Prog.onward_watched {α : Type} (p : Prog α) (w : Watch) (s : Session) :
    (p.watched w).onward s = (p.onward s).watched w := by
  induction p with
  | look k ih => exact ih s
  | _ => rfl

theorem Prog.Spends.onward {α : Type} {c : Config} {price : Wait → Nat} {p : Prog α} {n : Nat}
    (h : p.Spends c price n) {s : Session} (hs : s.config = c) :
    (p.onward s).Spends c price n := by
  induction p with
  | look k ih => exact ih s (h s hs)
  | _ => exact h

/-- Programs that go on alike from a session have the same runs from there. -/
theorem runs_watched_of_onward {α : Type} {p q : Prog α} {c : Option Call} {w : Watch}
    {s s' : Session} {l : History} {r : Option (Watch × α)} (heq : p.onward s = q.onward s)
    (h : Runs c (p.watched w) s l s' r) : Runs c (q.watched w) s l s' r := by
  rw [← runs_onward_iff, Prog.onward_watched, heq, ← Prog.onward_watched] at h
  exact runs_onward_iff.mp h

namespace Op

variable {s s' : Session} {lines : List UInt32} {source : String} {added : List Location}

/-- A line that cannot be resolved ends the request before anything is done. -/
theorem setBreakpoints_of_error (hup : s.isConnected = true) {e : Unresolved}
    (he : ((s.toAdd lines source).mapM fun line => s.registry.locate line source) = .error e) :
    (setBreakpoints lines source).AtOnce s (.error (.unresolved e)) := by
  refine atOnce_of_onward ?_
  rw [setBreakpoints, onward_requireLink_bind, if_pos hup, onward_session_bind, he]
  rfl

/-- With all lines resolved, the plan is carried out. -/
theorem onward_setBreakpoints (hup : s.isConnected = true)
    (ha : ((s.toAdd lines source).mapM fun line => s.registry.locate line source) = .ok added) :
    (setBreakpoints lines source).run.onward s =
      (carryOut ((s.toRemove lines source).map .remove ++ added.map .add) >>= fun _ =>
        pure ⟨added.length, (s.toRemove lines source).length⟩).run.onward s := by
  rw [setBreakpoints, onward_requireLink_bind, if_pos hup, onward_session_bind, ha]
  rfl

/-- What the plan comes to is what the request comes to. -/
theorem carries_of_runs {call : Call} {edits : List Edit} {update : Update} {l : History}
    {w : Watch} {r : Except Failure Update}
    (h : Runs (some call) ((carryOut edits >>= fun _ => pure update).run.watched .start) s l s'
      (some (w, r))) :
    ∃ n r', Carries s.config.responseTimeout w s' edits n (outcomesIn (some call) l) r' ∧
      r = r'.map (fun _ => update) ∧
      s'.breakpoints = (edits.take n).foldl Edit.apply s.breakpoints := by
  have hends : (carryOut edits >>= fun _ => pure update).Ends (some call)
      (Traced call (Session.Holds s.config s.breakpoints) []) .start fun v r h s' =>
        ∃ n r', Carries s.config.responseTimeout v s' edits n (outcomesIn (some call) h) r' ∧
          r = r'.map (fun _ => update) ∧
          s'.breakpoints = (edits.take n).foldl Edit.apply s.breakpoints := by
    refine ends_bind (ends_carryOut edits s.breakpoints []) ?_ fun v u => ends_pure ?_
    · rintro v e h s' ⟨n, y, hc, hy, hs⟩
      exact ⟨n, .error e, by rwa [hy], rfl, hs.2⟩
    · rintro h s' ⟨n, y, hc, hy, hs⟩
      exact ⟨n, .ok u, by rwa [hy], rfl, hs.2⟩
  exact hends (h := []) ⟨rfl, rfl, rfl⟩ h

end Op

namespace Session

variable {s s' : Session} {lines : List UInt32} {source : String} {removed added : List Location}
  {wanted : List UInt32}

/-- What is not removed belongs to another source, or is on a line of the request. -/
theorem Differs.filter_removed (h : s.Differs lines source removed wanted) :
    s.breakpoints.filter (· ∉ removed) =
      s.breakpoints.filter fun b => b.source ≠ source ∨ b.line ∈ lines := by
  refine List.filter_congr fun b hb => decide_eq_decide.mpr ?_
  simp [h.removed_eq, hb, imp_iff_not_or]

/-- Once a request is carried out, the same request finds nothing left to change. -/
theorem Differs.settled (h : s.Differs lines source removed wanted)
    (hadded : added.map Location.key = wanted.map fun line => (source, line))
    (hs : s'.breakpoints =
      s.breakpoints.filter (fun b => b.source ≠ source ∨ b.line ∈ lines) ++ added) :
    s'.Differs lines source [] [] where
  removed_eq := by
    refine (List.filter_eq_nil_iff.mpr fun b hb => ?_).symm
    have hkept : b.source ≠ source ∨ b.line ∈ lines := by
      rw [hs, List.mem_append] at hb
      rcases hb with hb | hb
      · exact of_decide_eq_true (List.mem_filter.mp hb).2
      · have hkey : b.key ∈ wanted.map fun line => (source, line) :=
          hadded ▸ List.mem_map_of_mem hb
        obtain ⟨line, hline, he⟩ := List.mem_map.mp hkey
        have hbline : line = b.line := (Prod.mk.inj he).2
        exact Or.inr (hbline ▸ ((h.mem_wanted_iff line).mp hline).1)
    simpa [imp_iff_not_or] using hkept
  mem_wanted_iff line := by
    refine iff_of_false nofun fun ⟨hline, hnone⟩ => hnone ?_
    rw [hs, List.map_append, List.mem_append]
    by_cases hwanted : line ∈ wanted
    · have hkey : (source, line) ∈ added.map Location.key :=
        hadded ▸ List.mem_map_of_mem hwanted
      exact Or.inr hkey
    · have hkey : (source, line) ∈ s.breakpoints.map fun b => (b.source, b.line) := by
        by_contra hnone
        exact hwanted ((h.mem_wanted_iff line).mpr ⟨hline, hnone⟩)
      obtain ⟨b, hb, he⟩ := List.mem_map.mp hkey
      obtain ⟨rfl, rfl⟩ := Prod.mk.inj he
      have hkept : b ∈ s.breakpoints.filter fun b' => b'.source ≠ b.source ∨ b'.line ∈ lines :=
        List.mem_filter.mpr ⟨hb, decide_eq_true (Or.inr hline)⟩
      exact Or.inl (List.mem_map_of_mem hkept)
  order := .nil

end Session

/-! ## The law -/

/-- On a connection, with breakpoints on different lines, a request for breakpoints makes out the
plan that `Session.Differs` asks for :

* if a line to add cannot be resolved, the request fails with the first such line, and nothing
  happens;
* otherwise it waits at most twice for each command of the plan before it ends, whatever the device
  does. The commands are sent up to the first that fails, the session has the part of the plan
  before it applied, and the request fails as that command does. A command fails without being sent
  if the connection is lost before. If none fails, the request succeeds with the numbers of
  breakpoints added and removed. Then the session has the breakpoints of before that belong to
  another source or are on a line of the request, and after them those that were added, and the same
  request finds nothing left to change. -/
theorem setBreakpoints_carries_out_plan {s : Session} (hup : s.isConnected = true)
    (hkeys : (s.breakpoints.map fun b => (b.source, b.line)).Nodup) (lines : List UInt32)
    (source : String) :
    let call := Call.setBreakpoints lines source
    let op := Op.setBreakpoints lines source
    ∃ removed wanted, s.Differs lines source removed wanted ∧
      ((∃ pre line post, wanted = pre ++ line :: post ∧
          (∀ x ∈ pre, ∃ l, s.registry.locate x source = .ok l) ∧
          (∀ l, s.registry.locate line source ≠ .ok l) ∧
          op.AtOnce s (.error (.unresolved (.line line source)))) ∨
        ∃ added plan, wanted.map (s.registry.locate · source) = added.map .ok ∧
          plan = removed.map Edit.remove ++ added.map Edit.add ∧
          (op.run.onward s).Spends s.config (fun _ => 1) (2 * plan.length) ∧
          ∀ l s' w r, Runs (some call) (op.run.watched .start) s l s' (some (w, r)) →
            ∃ n, n ≤ plan.length ∧
              (∀ x ∈ (outcomesIn (some call) l).take n, x.2.accepted (x.1.headD 0) = true) ∧
              s'.breakpoints = s.breakpoints.filter (· ∉ removed.take n) ++
                added.take (n - removed.length) ∧
              (n < plan.length → ∃ e, r = .error e ∧
                ((sentBy (some call) l = (plan.take (n + 1)).map (fun edit => edit.packet.encode) ∧
                  ∃ x, (outcomesIn (some call) l)[n]? = some x ∧
                    x.2.answer (x.1.headD 0) s.config.responseTimeout = .error e) ∨
                (sentBy (some call) l = (plan.take n).map (fun edit => edit.packet.encode) ∧
                  e = .connectionClosed ∧ (w.refused = true ∨ s'.isConnected = false)))) ∧
              (n = plan.length →
                sentBy (some call) l = plan.map (fun edit => edit.packet.encode) ∧
                r = .ok ⟨added.length, removed.length⟩ ∧
                s'.breakpoints = s.breakpoints.filter
                  (fun b => b.source ≠ source ∨ b.line ∈ lines) ++ added ∧
                s'.Differs lines source [] [])) := by
  intro call op
  have hdiffers := s.differs lines source
  refine ⟨_, _, hdiffers, ?_⟩
  rcases mapM_cases (fun line => s.registry.locate line source) (s.toAdd lines source) with
    ⟨added, hmapM, hmap⟩ | ⟨pre, line, post, e, hsplit, hpre, he, hmapM⟩
  · have honward := Op.onward_setBreakpoints hup hmapM
    refine Or.inr ⟨added, _, hmap, rfl, ?_, fun l s' w r hrun => ?_⟩
    · rw [honward]
      exact Prog.Spends.onward (Op.spends_carryOut_bind _ _) rfl
    · have hsent := hrun.sentBy_eq
      obtain ⟨n, r', hc, hr, hb⟩ := Op.carries_of_runs (runs_watched_of_onward honward hrun)
      have hmem : ∀ l ∈ s.toRemove lines source, l ∈ s.breakpoints :=
        fun l hl => (List.mem_filter.mp hl).1
      rw [Edit.foldl_take_plan hkeys hmem] at hb
      refine ⟨n, hc.le, hc.accepted, hb, fun hn => ?_, fun hn => ?_⟩
      · obtain ⟨e, rfl, hfails⟩ := hc.fails hn
        rw [hsent]
        exact ⟨e, hr, hfails⟩
      · obtain ⟨rfl, hall⟩ := hc.done hn
        have hkept : s'.breakpoints = s.breakpoints.filter
            (fun b => b.source ≠ source ∨ b.line ∈ lines) ++ added := by
          have hlength : n = (s.toRemove lines source).length + added.length := by
            simpa using hn
          rw [← hdiffers.filter_removed, hb, List.take_of_length_le (by omega),
            List.take_of_length_le (by omega)]
        exact ⟨hsent.trans hall, hr, hkept,
          hdiffers.settled (Registry.keys_of_mapM_locate hmapM) hkept⟩
  · obtain ⟨rfl, -⟩ := Registry.locate_eq_error_iff.mp he
    refine Or.inl ⟨pre, line, post, hsplit, hpre, fun l hl => ?_,
      Op.setBreakpoints_of_error hup hmapM⟩
    rw [he] at hl
    cases hl

/-- The breakpoint on a line is removed, and the device refuses to have another one added. A part of
the plan is carried out. -/
theorem setBreakpoints_carries_out_plan_refused :
    let call := Call.setBreakpoints [6, 6] "A.java"
    let s := ((Session.new {} Config.valid_default).replay [(.load (.twoLines 0), []),
      (.connect, []), (.setBreakpoints [5] "A.java", [.reply [2, 0]])]).2
    let p := (Op.setBreakpoints [6, 6] "A.java").run.watched .start
    let run := p.replay (some call) s [.reply [3, 0], .reply [2, 1]]
    s.isConnected = true ∧ s.breakpoints.map (·.line) = [5] ∧ run.2.1.breakpoints = [] ∧
      Runs (some call) p s run.1 run.2.1
        (some (.start, .error (.rejected Wire.Opcode.addBreakpoint 1))) ∧
      ∃ (removed added : List Location) (n : Nat),
        let plan := removed.map Edit.remove ++ added.map Edit.add
        n < plan.length ∧
        sentBy (some call) run.1 = (plan.take (n + 1)).map (fun edit => edit.packet.encode) ∧
        run.2.1.breakpoints =
          s.breakpoints.filter (· ∉ removed.take n) ++ added.take (n - removed.length) := by
  intro call s p run
  have hup : s.isConnected = true := by decide +kernel
  have hkeys : (s.breakpoints.map fun b => (b.source, b.line)).Nodup := by decide +kernel
  have hrun : Runs (some call) p s run.1 run.2.1
      (some (.start, .error (.rejected Wire.Opcode.addBreakpoint 1))) := by
    have hresult : run.2.2 = some (.start, .error (.rejected Wire.Opcode.addBreakpoint 1)) := by
      decide +kernel
    rw [← hresult]
    exact Prog.runs_replay _ _ _ _
  refine ⟨hup, by decide +kernel, by decide +kernel, hrun, ?_⟩
  obtain ⟨removed, wanted, -, ⟨-, line, -, -, -, -, hnone⟩ | ⟨added, -, -, rfl, -, hends⟩⟩ :=
    setBreakpoints_carries_out_plan hup hkeys [6, 6] "A.java"
  · have hnil : run.1 = [] := ((hnone _ _ _ _).mp hrun.of_watched).1
    exact absurd hnil (by decide +kernel)
  · obtain ⟨n, hle, -, hb, hfails, hdone⟩ := hends _ _ _ _ hrun
    rcases Nat.lt_or_eq_of_le hle with hn | hn
    · obtain ⟨e, he, ⟨hsent, -⟩ | ⟨-, rfl, -⟩⟩ := hfails hn
      · exact ⟨removed, added, n, hn, hsent, hb⟩
      · cases he
    · cases (hdone hn).2.1

section

variable {α β : Type} {c : Option Call} {op : Op α} {f : α → Op β} {s s₁ s' : Session}
  {l l' : History}

theorem Runs.op_bind {a : α} {r : Option (Except Failure β)}
    (h : Runs c op.run s l s₁ (some (.ok a))) (hf : Runs c (f a).run s₁ l' s' r) :
    Runs c (op >>= f).run s (l ++ l') s' r :=
  h.bind hf

theorem Runs.op_bind_error {e : Failure} (h : Runs c op.run s l s' (some (.error e))) :
    Runs c (op >>= f).run s l s' (some (.error e)) := by
  rw [← List.append_nil l]
  exact h.bind (.done _ _)

end

/-- The connection may be lost before a command is sent. Then the command fails. -/
theorem Op.runs_command_lost (c : Option Call) (p : Wire.Packet) (s : Session) :
    Runs c (command p).run s [⟨none, s, .acted (.lost none)⟩] (s.apply (.lost none))
      (some (.error .connectionClosed)) :=
  .acquire 0 false (.cons (.loses s none) (.nil _)) (.done _ _)

/-- The device has a breakpoint added and goes. The request for the next one is never sent. So not
every command that fails is among those that were sent. -/
theorem setBreakpoints_fails_unsent :
    let call := Call.setBreakpoints [5, 6] "A.java"
    let s := ((Session.new {} Config.valid_default).apply (.loaded (.twoLines 0))).apply .connected
    let first : Location := ⟨"A.java", 5, 0, "A", "m", "()V"⟩
    let second : Location := ⟨"A.java", 6, 4, "A", "m", "()V"⟩
    s.isConnected = true ∧ s.breakpoints = [] ∧ s.Differs [5, 6] "A.java" [] [5, 6] ∧
      [5, 6].map (s.registry.locate · "A.java") = [first, second].map .ok ∧
      ∃ l s', Runs (some call) (Op.setBreakpoints [5, 6] "A.java").run s l s'
          (some (.error .connectionClosed)) ∧
        s'.breakpoints = [first] ∧
        sentBy (some call) l = [(Edit.add first).packet.encode] ∧
        sentBy (some call) l ≠
          [Edit.add first, Edit.add second].map (fun edit => edit.packet.encode) := by
  intro call s first second
  have hup : s.isConnected = true := rfl
  have hadded : ((s.toAdd [5, 6] "A.java").mapM fun line => s.registry.locate line "A.java") =
      .ok [first, second] := by rfl
  refine ⟨hup, rfl, s.differs [5, 6] "A.java", rfl, ?_⟩
  let p := (Op.command (Edit.add first).packet).run
  have hfirst := Prog.runs_replay (some call) p s [.reply [2, 0]]
  have hresult : (p.replay (some call) s [.reply [2, 0]]).2.2 = some (.ok ⟨2, 0, []⟩) := by
    decide +kernel
  rw [hresult] at hfirst
  have hplan : Runs (some call) (Op.carryOut [.add first, .add second]).run s _ _
      (some (.error .connectionClosed)) :=
    hfirst.op_bind (.act ((Op.runs_command_lost _ _ _).op_bind_error))
  have honward : (Op.setBreakpoints [5, 6] "A.java").run.onward s =
      (Op.carryOut [.add first, .add second] >>= fun _ => pure ⟨2, 0⟩).run.onward s :=
    Op.onward_setBreakpoints hup hadded
  have hrun := runs_onward_iff.mpr (hplan.op_bind_error (f := fun _ => pure (⟨2, 0⟩ : Op.Update)))
  rw [← honward] at hrun
  exact ⟨_, _, runs_onward_iff.mp hrun, by decide +kernel, by decide +kernel, by decide +kernel⟩

end RemoteDebug
