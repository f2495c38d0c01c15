import AsioSamples.Cpp.LexicalPath
import AsioSamples.Http.ResourceSize

/-!
# Http/DocumentRoot — which paths `HttpService` opens

`process_request` appends the request target to `"sample"`, whatever the target is, and the calls it
hands the result to read it as a C string.  So an answer with status 200 is of the file at that path
up to its first NUL, and the path is inside `sample` for the targets that lead there and no others
(`answered_inside_iff`).
-/

namespace AsioSamples

theorem cStr_append {name : Bytes} (hname : 0 ∉ name) (more : Bytes) :
    cStr (name ++ more) = name ++ cStr more := by
  refine List.takeWhile_append_of_pos fun b hb => ?_
  simpa using fun hzero : b = 0 => hname (hzero ▸ hb)

namespace HttpService

open LexicalPath (Inside Stays components resolve slash)

/-- The path that the system sees of `resource_file_path`. -/
def openedPath (s : HttpService) : Bytes := cStr s.resourceFilePath

/-- The response is of the file at `path`. -/
def ReadFrom (os : Os) (path sent : Bytes) : Prop :=
  ∃ f, os.fs path = .opened f ∧ sent = okResponse f.size.toNat (sentBody os f)

/-- The target leads into `sample`: up to its first NUL the path comes to a component of that name
before which everything cancels, and from there on it never climbs above it and ends below it. -/
def LeadsInside (target : Bytes) : Prop :=
  ∃ pre post, components (bytes "sample" ++ cStr target) = pre ++ bytes "sample" :: post ∧
    resolve pre = [] ∧ Stays post

theorem openedPath_eq (s : HttpService) :
    s.openedPath = bytes "sample" ++ cStr s.requestedResource :=
  cStr_append (by decide) _

/-- **The path opened is inside `sample` for the targets that lead there.** -/
theorem inside_openedPath_iff (s : HttpService) :
    Inside (bytes "sample") s.openedPath ↔ LeadsInside s.requestedResource := by
  rw [openedPath_eq]
  exact LexicalPath.inside_iff (by decide) _

/-- A target leads there that starts with a `'/'`, and stays below it. -/
theorem leadsInside_of_stays {rest : Bytes} (h : Stays (components (cStr rest))) :
    LeadsInside (slash :: rest) := by
  have hslash : cStr (slash :: rest) = slash :: cStr rest :=
    List.takeWhile_cons_of_pos (by decide)
  refine ⟨[], components (cStr rest), ?_, rfl, h⟩
  rw [hslash]
  exact LexicalPath.components_append (by decide) _

/-- **What is answered with 200 was read from the path opened**, and the stream has asked for it. -/
theorem readFrom_of_answered {os : Os} {stream : Bytes} {chunks : List Bytes}
    (hcut : IsCut stream chunks) {svc : HttpService} {sent : Bytes}
    (h : serve os chunks = some (.answered svc sent)) (hcode : svc.responseStatusCode = 200) :
    AsksFor svc.requestedResource stream ∧ ReadFrom os svc.openedPath sent := by
  obtain ⟨hasks, -, f, hf, -, hsent⟩ := (answered_ok_iff os hcut).mp ⟨svc, h, hcode, rfl⟩
  exact ⟨hasks, f, hf, hsent⟩

/-- **Which files are served.**  An answer with status 200 is of the file at the path opened, and
that is inside `sample` exactly if the stream has asked for a target that leads there, one that
starts with `'/'` and stays below it among them; and a file outside is served to a stream that asks
for one. -/
theorem answered_inside_iff {os : Os} {stream : Bytes} {chunks : List Bytes}
    (hcut : IsCut stream chunks) :
    (∀ svc sent, serve os chunks = some (.answered svc sent) → svc.responseStatusCode = 200 →
      ReadFrom os svc.openedPath sent ∧
      (Inside (bytes "sample") svc.openedPath ↔
        ∃ target, AsksFor target stream ∧ LeadsInside target) ∧
      ∀ rest, AsksFor (slash :: rest) stream → Stays (components (cStr rest)) →
        Inside (bytes "sample") svc.openedPath) ∧
    ∀ target f, AsksFor target stream → ¬ LeadsInside target →
      os.fs (bytes "sample" ++ cStr target) = .opened f → os.Allocates f.size.toNat →
      os.shutdownReceive.value = 0 →
        ∃ svc sent, serve os chunks = some (.answered svc sent) ∧ svc.responseStatusCode = 200 ∧
          ReadFrom os svc.openedPath sent ∧ ¬ Inside (bytes "sample") svc.openedPath := by
  constructor
  · intro svc sent h hcode
    obtain ⟨hasks, hread⟩ := readFrom_of_answered hcut h hcode
    refine ⟨hread, ?_, fun rest hrest hstays => ?_⟩
    · rw [inside_openedPath_iff]
      refine ⟨fun hleads => ⟨_, hasks, hleads⟩, ?_⟩
      rintro ⟨target, hasks', hleads⟩
      rwa [hasks.unique hasks']
    · rw [inside_openedPath_iff, hasks.unique hrest]
      exact leadsInside_of_stays hstays
  · intro target f hasks hno hf halloc hshut
    have hfind : os.find (bytes "sample" ++ target) = .opened f := by
      rw [Os.find, cStr_append (by decide)]
      exact hf
    obtain ⟨svc, hserve, hcode, rfl⟩ :=
      (answered_ok_iff os hcut).mpr ⟨hasks, hshut, f, hfind, halloc, rfl⟩
    refine ⟨svc, _, hserve, hcode, (readFrom_of_answered hcut hserve hcode).2, ?_⟩
    rwa [inside_openedPath_iff]

theorem answered_inside_iff_simpleScenario : ∃ svc sent,
    serve (HTTPRequest.manualHtml (bytes "hi"))
        (Segmentation.whole.cut HTTPRequest.simpleScenario.requestBytes)
      = some (.answered svc sent) ∧
    ReadFrom (HTTPRequest.manualHtml (bytes "hi")) svc.openedPath sent ∧
    Inside (bytes "sample") svc.openedPath := by
  obtain ⟨svc, sent, hserve, hcode⟩ : ∃ svc sent,
      serve (HTTPRequest.manualHtml (bytes "hi"))
          (Segmentation.whole.cut HTTPRequest.simpleScenario.requestBytes)
        = some (.answered svc sent) ∧
      svc.responseStatusCode = 200 := ⟨_, _, rfl, by decide +kernel⟩
  obtain ⟨hread, -, hinside⟩ :=
    (answered_inside_iff (Segmentation.isCut _ _)).1 svc sent hserve hcode
  refine ⟨svc, sent, hserve, hread, hinside (bytes "manual.html") asksFor_simpleScenario ?_⟩
  exact LexicalPath.stays_of_names (by decide +kernel) (by decide +kernel)

/-- An operating system with one file, beside `sample`. -/
def keyBesideSample : Os where
  fs path := if path = bytes "sample/../id_rsa" then .opened ⟨6, bytes "secret"⟩ else .missing

/-- The file beside `sample` is served to a target that climbs, and to one that would come back if
it did not end at its NUL. -/
theorem exists_answered_outside :
    (∃ svc sent, serve keyBesideSample (Segmentation.whole.cut
          (HTTPRequest.simpleScenario.setUri (bytes "/../id_rsa")).requestBytes)
        = some (.answered svc sent) ∧
      svc.responseStatusCode = 200 ∧ sent.drop (sent.length - 6) = bytes "secret" ∧
        ¬ Inside (bytes "sample") svc.resourceFilePath) ∧
    ∃ svc sent, serve keyBesideSample (Segmentation.whole.cut
          (HTTPRequest.simpleScenario.setUri
            (bytes "/../id_rsa\x00/../sample/manual.html")).requestBytes)
        = some (.answered svc sent) ∧
      svc.responseStatusCode = 200 ∧ sent.drop (sent.length - 6) = bytes "secret" ∧
        Inside (bytes "sample") svc.resourceFilePath ∧
        ¬ Inside (bytes "sample") svc.openedPath := by
  have houtside : ¬ Inside (bytes "sample") (bytes "sample/../id_rsa") := by
    rintro ⟨c, cs, h⟩
    have hnormal : LexicalPath.lexicallyNormal (bytes "sample/../id_rsa") = [bytes "id_rsa"] := by
      decide +kernel
    cases (congrArg List.length hnormal).symm.trans (congrArg List.length h)
  refine ⟨⟨_, _, rfl, by decide +kernel, by decide +kernel, houtside⟩,
    ⟨_, _, rfl, by decide +kernel, by decide +kernel, ?_, ?_⟩⟩
  · exact ⟨bytes "manual.html", [], by decide +kernel⟩
  · exact houtside

end HttpService

end AsioSamples
