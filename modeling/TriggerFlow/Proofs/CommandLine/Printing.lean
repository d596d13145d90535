import TriggerFlow.CommandLine.Report
import TriggerFlow.Proofs.Store.Access
/-!
# What commands print

Printing always ends well and leaves the store as it is (`Errand.Prints`).  A document that is run
prints what has happened and a summary, which ends with the results on the row of the run
(`Command.runAuthored_of_executed`).
-/

namespace TriggerFlow

namespace Errand

variable {α ε : Type} {desk desk' : Desk}

/-! ### Printing -/

/-- The work ends well and changes nothing but the lines. -/
def Prints (work : Errand Unit) : Prop := ∀ desk, ∃ lines, work desk = .ok () { desk with lines }

theorem prints_pure : Prints (return ()) := fun desk => ⟨desk.lines, rfl⟩

theorem prints_say (line : String) : Prints (say line) := fun desk => ⟨desk.lines ++ [line], rfl⟩

theorem Prints.bind {work : Errand Unit} {next : Unit → Errand Unit} (h : Prints work)
    (hnext : ∀ u, Prints (next u)) : Prints (work >>= next) := by
  intro desk
  obtain ⟨lines, hwork⟩ := h desk
  obtain ⟨lines', hrest⟩ := hnext () { desk with lines }
  exact ⟨lines', by rw [bind_of_ok hwork, hrest]⟩

theorem prints_list_forM {f : α → Errand Unit} (h : ∀ a, Prints (f a)) (as : List α) :
    Prints (as.forM f) := by
  induction as with
  | nil => exact prints_pure
  | cons a as ih => exact (h a).bind fun _ => ih

theorem prints_option_forM {f : α → Errand Unit} (h : ∀ a, Prints (f a)) (o : Option α) :
    Prints (o.forM f) := by
  cases o with
  | none => exact prints_pure
  | some a => exact h a

theorem say_apply (line : String) (desk : Desk) :
    say line desk = .ok () { desk with lines := desk.lines ++ [line] } := rfl

theorem forM_say_apply (line : α → String) (as : List α) (desk : Desk) :
    (as.forM fun a => say (line a)) desk =
      .ok () { desk with lines := desk.lines ++ as.map line } := by
  induction as generalizing desk with
  | nil => simp [List.forM]
  | cons a as ih =>
    have hrest := ih { desk with lines := desk.lines ++ [line a] }
    rw [List.append_assoc] at hrest
    exact (bind_of_ok (say_apply (line a) desk) _).trans hrest

/-! ### Working on the store -/

theorem onStorage_eq_ok_iff {failure : ε → Failure} {work : EStateM ε Storage α} {a : α} :
    onStorage failure work desk = .ok a desk' ↔
      ∃ s, work desk.storage = .ok a s ∧ desk' = { desk with storage := s } := by
  unfold onStorage
  cases work desk.storage with
  | error e s => simp
  | ok a' s =>
    simp only [EStateM.Result.ok.injEq]
    constructor
    · rintro ⟨rfl, rfl⟩
      exact ⟨s, ⟨rfl, rfl⟩, rfl⟩
    · rintro ⟨s', ⟨rfl, rfl⟩, rfl⟩
      exact ⟨rfl, rfl⟩

end Errand

namespace Command

open Errand

theorem prints_describe (a : AuthoredDocument) : Prints (describe a) :=
  (prints_say _).bind fun _ => (prints_say _).bind fun _ => (prints_say _).bind fun _ =>
    prints_say _

theorem prints_narrate (size : Nat) (a : AuthoredDocument) (events : List Event) :
    Prints (narrate size a events) := by
  refine Prints.bind ?_ fun _ => prints_list_forM (fun _ => prints_say _) _
  unfold sayLost
  split
  · exact prints_say _
  · exact prints_pure

/-- The lines about results, if there are any. -/
def resultLines (a : AuthoredDocument) (results : Fields) : List String :=
  if results.isEmpty then [] else "" :: "📤 Action results:" :: results.map (resultLine a)

/-- The lines of `summarize` end with `resultLines`. -/
theorem summarize_ends (a : AuthoredDocument) (e : Execution) (desk : Desk) :
    ∃ before, summarize a e desk =
      .ok () { desk with lines := before ++ resultLines a (e.actions.getD []) } := by
  unfold summarize
  rw [bind_of_ok (say_apply _ _), bind_of_ok (say_apply _ _), bind_of_ok (say_apply _ _),
    bind_of_ok (say_apply _ _)]
  obtain ⟨lines, herror⟩ := prints_option_forM
    (f := fun error => say ("   Error: " ++ error)) (fun _ => prints_say _) e.error _
  rw [bind_of_ok herror]
  refine ⟨lines, ?_⟩
  dsimp only [resultLines]
  by_cases hnone : (e.actions.getD []).isEmpty = true
  · rw [if_pos hnone, if_pos hnone, List.append_nil]
    rfl
  · rw [if_neg hnone, if_neg hnone, bind_of_ok (say_apply _ _), bind_of_ok (say_apply _ _),
      forM_say_apply]
    simp

/-! ### Running -/

/-- After a run whose row is `e`, `runAuthored` has printed the `resultLines` of `e` last, and fails
with `executionFailed` if `e` is failed. -/
theorem runAuthored_of_executed {settings : RunSettings} {a : AuthoredDocument}
    {triggerType : String} {fields : Fields} {s : Storage} {id : ExecutionId} {w : World}
    {e : Execution}
    (executed : Engine.execute ⟨Builtin.catalogue, settings.maxDepth⟩ a.workflow triggerType fields
      (World.ofStorage s) = .ok id w)
    (calm : w.storage.outages = []) (found : w.storage.tables.getExecution id = some e)
    (lines : List String) :
    ∃ before, runAuthored settings a triggerType fields ⟨s, lines⟩ =
      if e.status = .failed
      then .error .executionFailed ⟨w.storage, before ++ resultLines a (e.actions.getD [])⟩
      else .ok () ⟨w.storage, before ++ resultLines a (e.actions.getD [])⟩ := by
  have hworld : onWorld (Engine.execute ⟨Builtin.catalogue, settings.maxDepth⟩ a.workflow
      triggerType fields) ⟨s, lines⟩ = .ok (id, w.events) ⟨w.storage, lines⟩ := by
    rw [onWorld, executed]
  -- what is printed before the results depends on the events and does not matter here
  obtain ⟨lines₁, hnarrate⟩ := prints_narrate settings.eventBufferSize a w.events ⟨w.storage, lines⟩
  have hget : onStorage .store (Storage.getExecution id) ⟨w.storage, lines₁⟩
      = .ok (some e) ⟨w.storage, lines₁⟩ := by
    refine onStorage_eq_ok_iff.mpr ⟨w.storage, ?_, rfl⟩
    rw [← found]
    exact Storage.look_of_calm calm .getExecution fun t => t.getExecution id
  obtain ⟨before, hsummarize⟩ := summarize_ends a e ⟨w.storage, lines₁⟩
  refine ⟨before, ?_⟩
  rw [runAuthored, bind_of_ok hworld]
  dsimp only
  rw [bind_of_ok hnarrate, bind_of_ok hget]
  dsimp only
  rw [bind_of_ok hsummarize]
  split <;> rfl

end Command

end TriggerFlow
