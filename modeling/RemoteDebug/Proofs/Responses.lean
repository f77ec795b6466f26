import RemoteDebug.Frontend.CommandLine
import RemoteDebug.Proofs.Registrations
import RemoteDebug.Proofs.Unconnected

/-!
# What a front end writes

A front end reads its input up to the first line that is not UTF-8 (`CommandLine.textLines`). It
answers line by line (`CommandLine.outputs`), and each line finds the session that the lines before
it have left (`CommandLine.after`). Whatever the session, a line that is not blank gets one
response, and the response names the identifier of the request. It is a JSON object that reports a
success without a message or a failure with one. What is written is the text of these responses
(`CommandLine.answerAll`).

A line that cannot be carried out comes to nothing (`Frontend.Vain`) : it is no request, its command
is not known, its arguments are not those of the command, or the one file that it names holds no
class. What it leads to is decided by looks at the session alone, so the session and the device do
not notice it (`CommandLine.answerAll_line_by_line`).
-/

namespace RemoteDebug

/-! ## Responses -/

/-- The member of an object that has a name. -/
def Json.member? (name : String) : Json → Option Json
  | .object members => members.lookup name
  | _ => none

/-- The response reports a success without a message, or a failure with a message and no body, and
names an identifier. -/
structure Response.Reports (r : Response) (id : Json) : Prop where
  id_eq : r.json.member? "id" = some id
  outcome :
    r.json.member? "success" = some (.bool true) ∧ r.json.member? "message" = none ∨
      r.json.member? "success" = some (.bool false) ∧
        (∃ text, r.json.member? "message" = some (.string text)) ∧ r.json.member? "body" = none

theorem Response.reports (r : Response) : r.Reports r.id := by
  obtain ⟨id, _ | (_ | body)⟩ := r
  · exact ⟨rfl, Or.inr ⟨rfl, ⟨_, rfl⟩, rfl⟩⟩
  · exact ⟨rfl, Or.inl ⟨rfl, rfl⟩⟩
  · exact ⟨rfl, Or.inl ⟨rfl, rfl⟩⟩

namespace Frontend

/-- The identifier that a line is answered under. A line that is no request has none. -/
def idOf (line : String) : Json :=
  match Request.ofString? (Blank.trim line) with
  | some r => r.id
  | none => .null

/-- The commands of the front end. -/
def commands : List String :=
  ["loadClasses", "connect", "disconnect", "continue", "pause", "stepIn", "setBreakpoints",
    "removeAllBreakpoints", "stackTrace", "status"]

/-- The line is not blank and comes to nothing. -/
inductive Vain (files : Files) (line : String) : Prop where
  | noRequest (hline : Blank.trim line ≠ "") (h : Request.ofString? (Blank.trim line) = none)
  | unknown {r : Request} (h : Request.ofString? (Blank.trim line) = some r)
      (hc : r.command ∉ commands)
  | noPath {r : Request} {misfit : Misfit} (h : Request.ofString? (Blank.trim line) = some r)
      (hc : r.command = "loadClasses") (ha : pathIn r.arguments = .error misfit)
  | noLines {r : Request} {misfit : Misfit} (h : Request.ofString? (Blank.trim line) = some r)
      (hc : r.command = "setBreakpoints") (ha : linesIn r.arguments = .error misfit)
  /-- The path leads to no folder, and what it leads to cannot be read or is no class file. -/
  | noClass {r : Request} {path : String} {e : ClassFile.Error}
      (h : Request.ofString? (Blank.trim line) = some r) (hc : r.command = "loadClasses")
      (ha : pathIn r.arguments = .ok path) (hfile : files.isFolder path = false)
      (he : (Registration.stored files path).file = .error e)

theorem carryOut_of_unknown {command : String} (h : command ∉ commands) (files : Files)
    (arguments : Json) :
    carryOut files command arguments = .done (.error (.unknownCommand command)) := by
  unfold carryOut
  split
  case h_11 => rfl
  all_goals exact (h (by decide +kernel)).elim

theorem carryOut_loadClasses (files : Files) (arguments : Json) :
    carryOut files "loadClasses" arguments =
      match pathIn arguments with
      | .ok path => loadClasses files path
      | .error misfit => .done (.error (.invalidArguments misfit)) := by
  unfold carryOut
  rfl

theorem carryOut_setBreakpoints_of_error {arguments : Json} {misfit : Misfit}
    (h : linesIn arguments = .error misfit) (files : Files) :
    carryOut files "setBreakpoints" arguments = .done (.error (.invalidArguments misfit)) := by
  unfold carryOut
  rw [h]
  rfl

theorem onward_loadClasses {files : Files} {path : String} {e : ClassFile.Error}
    (hfile : files.isFolder path = false) (he : (Registration.stored files path).file = .error e)
    (s : Session) :
    (loadClasses files path).onward s = .done (.error (.loadFailed path e)) := by
  have hadd : s.registry.addFile files path = .error e := by
    have hregister := s.registry.register_eq (.stored files path)
    rw [Registration.entry, he] at hregister
    exact hregister
  unfold loadClasses
  simp only [Prog.onward]
  rw [hfile, hadd]
  rfl

theorem trim_ne_of_request {line : String} {r : Request}
    (h : Request.ofString? (Blank.trim line) = some r) : Blank.trim line ≠ "" := by
  intro hblank
  have hnone : Request.ofString? "" = none := by decide +kernel
  rw [hblank, hnone] at h
  cases h

theorem Vain.trim_ne {files : Files} {line : String} (h : Vain files line) :
    Blank.trim line ≠ "" := by
  cases h with
  | noRequest hline _ => exact hline
  | unknown h _ => exact trim_ne_of_request h
  | noPath h _ _ => exact trim_ne_of_request h
  | noLines h _ _ => exact trim_ne_of_request h
  | noClass h _ _ _ _ => exact trim_ne_of_request h

theorem respond_of_request {line : String} {r : Request}
    (h : Request.ofString? (Blank.trim line) = some r) (files : Files) :
    respond files line =
      (carryOut files r.command r.arguments).bind fun answer => .done ⟨idOf line, answer⟩ := by
  unfold respond idOf
  dsimp only
  rw [h]

theorem respond_of_none {line : String} (h : Request.ofString? (Blank.trim line) = none)
    (files : Files) :
    respond files line =
      .done ⟨idOf line, .error (.invalidRequest (Request.misfit (Blank.trim line)))⟩ := by
  unfold respond idOf
  dsimp only
  rw [h]

/-- A line that comes to nothing is answered with a complaint, after looks at the session alone. -/
theorem Vain.onward_respond {files : Files} {line : String} (h : Vain files line) :
    ∃ complaint, ∀ s, (respond files line).onward s = .done ⟨idOf line, .error complaint⟩ := by
  have hrefused {r : Request} (hr : Request.ofString? (Blank.trim line) = some r)
      {complaint : Complaint} (hc : ∀ s, (carryOut files r.command r.arguments).onward s =
        .done (.error complaint)) (s : Session) :
      (respond files line).onward s = .done ⟨idOf line, .error complaint⟩ := by
    rw [respond_of_request hr, Prog.onward_bind_of_done (hc s)]
    rfl
  cases h with
  | noRequest _ hr =>
    refine ⟨.invalidRequest (Request.misfit (Blank.trim line)), fun s => ?_⟩
    rw [respond_of_none hr]
    rfl
  | @unknown r hr hc =>
    refine ⟨.unknownCommand r.command, hrefused hr fun s => ?_⟩
    rw [carryOut_of_unknown hc]
    rfl
  | @noPath r misfit hr hc ha =>
    refine ⟨.invalidArguments misfit, hrefused hr fun s => ?_⟩
    rw [hc, carryOut_loadClasses, ha]
    rfl
  | @noLines r misfit hr hc ha =>
    refine ⟨.invalidArguments misfit, hrefused hr fun s => ?_⟩
    rw [hc, carryOut_setBreakpoints_of_error ha]
    rfl
  | @noClass r path e hr hc ha hfile he =>
    refine ⟨.loadFailed path e, hrefused hr fun s => ?_⟩
    rw [hc, carryOut_loadClasses, ha]
    exact onward_loadClasses hfile he s

end Frontend

namespace CommandLine

open Frontend (idOf respond respond? Vain)

/-! ## Lines -/

/-- What goes out for a line : nothing if it is blank, and otherwise one response under its
identifier, with the events that came in. -/
inductive Answered (line : String) : Option Output → Prop where
  | nothing (h : Blank.trim line = "") : Answered line none
  | response (h : Blank.trim line ≠ "") {out : Output} (hr : out.response.Reports (idOf line)) :
      Answered line (some out)

/-- The world after some lines. -/
def after (files : Files) (w : World) (lines : List String) : World :=
  lines.foldl (fun w line => (answer files w line).2) w

theorem answer_of_blank {line : String} (h : Blank.trim line = "") (files : Files) (w : World) :
    answer files w line = (none, w) := by
  unfold answer respond?
  rw [if_pos h]

theorem answer_of_not_blank {line : String} (h : Blank.trim line ≠ "") (files : Files)
    (w : World) : answer files w line =
      (some ⟨(w.run (respond files line)).1, (w.run (respond files line)).2.mailbox.events⟩,
        { (w.run (respond files line)).2 with mailbox := Mailbox.empty }) := by
  unfold answer respond?
  rw [if_neg h]

theorem id_run_respond (files : Files) (w : World) (line : String) :
    (w.run (respond files line)).1.id = idOf line := by
  cases hr : Request.ofString? (Blank.trim line) with
  | none => rw [Frontend.respond_of_none hr, World.run]
  | some r => rw [Frontend.respond_of_request hr, World.run_bind, World.run]

theorem answered_answer (files : Files) (w : World) (line : String) :
    Answered line (answer files w line).1 := by
  by_cases h : Blank.trim line = ""
  · rw [answer_of_blank h]
    exact .nothing h
  · have hreports := (w.run (respond files line)).1.reports
    rw [id_run_respond] at hreports
    rw [answer_of_not_blank h]
    refine .response h ?_
    -- The projection goes first, or unification evaluates the run.
    dsimp only
    exact hreports

/-! ## The input -/

/-- The texts read are those of the first lines. What is left unread does not start with a text. -/
theorem textLines_go_reads (lines : List Bytes) :
    ∃ unread, lines.map Utf8.decode = (textLines.go lines).map .ok ++ unread ∧
      ∀ text, unread.head? ≠ some (.ok text) := by
  induction lines with
  | nil => exact ⟨[], rfl, fun text => nofun⟩
  | cons line lines ih =>
    cases hline : Utf8.decode line with
    | ok text =>
      obtain ⟨unread, hread, hhead⟩ := ih
      refine ⟨unread, ?_, hhead⟩
      rw [textLines.go, hline, List.map_cons, List.map_cons, hline, hread, List.cons_append]
    | error fault =>
      refine ⟨.error fault :: lines.map Utf8.decode, ?_, fun text => nofun⟩
      rw [textLines.go, hline, List.map_cons, hline, List.map_nil, List.nil_append]

theorem outputs_cons (files : Files) (w : World) (line : String) (lines : List String) :
    outputs files w (line :: lines) =
      (answer files w line).1 :: outputs files (answer files w line).2 lines := by
  rw [outputs]

theorem outputs_append (files : Files) (w : World) (lines rest : List String) :
    outputs files w (lines ++ rest) =
      outputs files w lines ++ outputs files (after files w lines) rest := by
  induction lines generalizing w with
  | nil => rfl
  | cons line lines ih =>
    rw [List.cons_append, outputs_cons, outputs_cons, ih, List.cons_append, after, after,
      List.foldl_cons]

theorem answered_outputs (files : Files) (w : World) (lines : List String) :
    List.Forall₂ Answered lines (outputs files w lines) := by
  induction lines generalizing w with
  | nil => exact .nil
  | cons line lines ih =>
    rw [outputs_cons]
    exact .cons (answered_answer files w line) (ih _)

theorem length_outputs (files : Files) (w : World) (lines : List String) :
    (outputs files w lines).length = lines.length :=
  (answered_outputs files w lines).length_eq.symm

theorem after_snoc (files : Files) (w : World) (lines : List String) (line : String) :
    after files w (lines ++ [line]) = (answer files (after files w lines) line).2 := by
  simp [after, List.foldl_append]

end CommandLine

end RemoteDebug
