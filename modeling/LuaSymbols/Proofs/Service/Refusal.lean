import Mathlib
import LuaSymbols.Proofs.Service.Failure
import LuaSymbols.Proofs.Service.Store

/-!
# Requests that are refused

The service looks at a request before it acts on it: at its route, its method and its body,
and whether a document that is to be closed is open. What it does act on it answers with 200
or 500, so any other answer leaves the index as it was (`Screened`). A client that is told
of an error of its own, or only asks, changes nothing (`refused_request_changes_nothing`).
-/

namespace LuaSymbols.Service

open Index

/-- The request was acted on, which shows in the status, or the index is as it was. -/
def Screened (s : Index) (answered : Response × Index) : Prop :=
  answered.1.status = 200 ∨ answered.1.status = 500 ∨ answered.2 = s

section
variable (d : Disk) (s : Index)

theorem screened_unchanged (response : Response) : Screened s (response, s) := .inr (.inr rfl)

theorem screened_respond (o : Outcome Json) : Screened s (respond o) := by
  by_cases hreturns : o.Returns
  · exact .inl ((status_respond o).1.2 hreturns)
  · exact .inr (.inl ((status_respond o).2.2 hreturns))

/-- A body is decoded before the action, so one that is not valid ends the request. -/
theorem screened_withBody {α : Type} {b : Body} {decode : Json.Fields → Checked α}
    {act : α → Response × Index} (h : ∀ a, Screened s (act a)) :
    Screened s (withBody s b decode act) := by
  unfold withBody
  split
  · exact h _
  · exact screened_unchanged s _

/-- A document is dropped only if it is open. -/
theorem screened_closeDocument (r : UriRequest) : Screened s (closeDocument s r) := by
  unfold closeDocument
  split
  · exact .inl rfl
  · exact screened_unchanged s _

theorem screened_answer (method : String) (b : Body) (route : Route) :
    Screened s (answer d s method b route) := by
  cases route with
  | openDocument | changeDocument | saveDocument | definition | outline =>
    exact screened_withBody s fun _ => screened_respond s _
  | closeDocument => exact screened_withBody s fun r => screened_closeDocument s r
  | configuration =>
    rw [answer]
    split
    · exact screened_withBody s fun _ => .inl rfl
    · exact screened_unchanged s _
  | root | health | ready | files | globals => exact screened_unchanged s _

theorem screened_dispatch (q : Request) : Screened s (dispatch d s q) := by
  unfold dispatch
  split
  · exact screened_unchanged s _
  · split
    · exact screened_answer d s _ _ _
    · exact screened_unchanged s _

/-! ## Requests that only ask -/

/-- No route that takes `GET` acts on it. -/
theorem index_answer_get (b : Body) {route : Route} (hroute : "GET" ∈ route.methods) :
    (answer d s "GET" b route).2 = s := by
  cases route with
  | openDocument | changeDocument | saveDocument | closeDocument | definition | outline =>
    simp [Route.methods] at hroute
  | configuration =>
    rw [answer, if_neg (by decide)]
  | root | health | ready | files | globals => rfl

theorem index_dispatch_get {q : Request} (hverb : q.verb = "GET") : (dispatch d s q).2 = s := by
  unfold dispatch
  split
  · rfl
  · split
    · next route _ hroute =>
      rw [hverb] at hroute ⊢
      exact index_answer_get d s q.body hroute
    · rfl

end

/-- **Client errors change nothing.** In any index and on any disk, a request of any method,
path and body that is answered with an error of the client (a status from 400 on and below
500: not found, method not allowed, body not valid or not readable), or that is a `GET`,
leaves the index as a whole as it was. -/
theorem refused_request_changes_nothing (d : Disk) (s : Index) (q : Request)
    (h : (400 ≤ (handle d s q).1.status ∧ (handle d s q).1.status < 500) ∨ q.verb = "GET") :
    (handle d s q).2 = s := by
  rw [status_handle_eq_dispatch] at h
  rw [index_handle]
  rcases h with ⟨hlow, hhigh⟩ | hverb
  · rcases screened_dispatch d s q with hok | hfailed | hsame
    · omega
    · omega
    · exact hsame
  · exact index_dispatch_get d s hverb

/-- A request about the script, as a client sends it that gives no more than the file. -/
def aboutScript (path : String) : Request :=
  ⟨"POST", path, .value (.object [("uri", .string "file:///a.lua")])⟩

/-- One document is open. The script is to be closed, which is not; it is to be opened, but
no text is given; and the same path is asked with `GET`. -/
theorem refused_request_changes_nothing_stocked :
    ((handle (scriptDisk "x = 1") stocked (aboutScript "/documents/close")).1.status = 404 ∧
      (handle (scriptDisk "x = 1") stocked (aboutScript "/documents/close")).2 = stocked) ∧
    ((handle (scriptDisk "x = 1") stocked (aboutScript "/documents/open")).1.status = 422 ∧
      (handle (scriptDisk "x = 1") stocked (aboutScript "/documents/open")).2 = stocked) ∧
    ((handle (scriptDisk "x = 1") stocked ⟨"get", "/documents/open", .absent⟩).1.status = 405 ∧
      (handle (scriptDisk "x = 1") stocked ⟨"get", "/documents/open", .absent⟩).2 = stocked) := by
  have hclosed : (handle (scriptDisk "x = 1") stocked
      (aboutScript "/documents/close")).1.status = 404 := by decide +kernel
  have hinvalid : (handle (scriptDisk "x = 1") stocked
      (aboutScript "/documents/open")).1.status = 422 := by decide +kernel
  refine ⟨⟨hclosed, ?_⟩, ⟨hinvalid, ?_⟩, by decide +kernel, ?_⟩
  · exact refused_request_changes_nothing _ _ _ (.inl ⟨by omega, by omega⟩)
  · exact refused_request_changes_nothing _ _ _ (.inl ⟨by omega, by omega⟩)
  · exact refused_request_changes_nothing _ _ _ (.inr (by decide +kernel))

end LuaSymbols.Service
