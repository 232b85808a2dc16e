import ProtoBind.Disk
import ProtoBind.Proofs.SecondReading

/-!
# Requests that agree

Two requests that ask for the same names and hold the same bytes of files, however the rest of them is
made, are answered alike.
-/

set_option autoImplicit false

namespace ProtoBind

open Wire

namespace Request

theorem decode_of_nestedFiles {contents : List Bytes} {files : List FileDecl}
    (h : List.Forall₂ NestedFile contents files) : contents.mapM FileDecl.decode = some files := by
  induction h with
  | nil => rfl
  | cons hHead _ ih =>
    rw [List.mapM_cons, hHead.decode, ih]
    rfl

theorem files_eq_of_rawFiles {bytes other : Bytes} {request asked : Request}
    (h : decode bytes = .ok request) (hOther : decode other = .ok asked)
    (hRaw : rawFiles other = rawFiles bytes) : asked.files = request.files := by
  obtain ⟨contents, hContents, hFiles⟩ := rawFiles_of_decode h
  obtain ⟨found, hFound, hAsked⟩ := rawFiles_of_decode hOther
  obtain rfl : found = contents := by
    rw [hRaw, hContents] at hFound
    exact (Except.ok.inj hFound).symm
  have hSame := decode_of_nestedFiles hAsked
  rw [decode_of_nestedFiles hFiles] at hSame
  exact (Option.some.inj hSame).symm

end Request

theorem generateAll_congr {bytes other : Bytes} {request asked : Request}
    (h : Request.decode bytes = .ok request) (hOther : Request.decode other = .ok asked)
    (hNames : asked.filesToGenerate = request.filesToGenerate)
    (hRaw : Request.rawFiles other = Request.rawFiles bytes) (config : Config) :
    generateAll other config = generateAll bytes config := by
  have hFiles := Request.files_eq_of_rawFiles h hOther hRaw
  have hProject : Project.ofRequest asked config = Project.ofRequest request config := by
    rw [Project.ofRequest, Project.ofRequest, hNames, hFiles]
  have hBytes : Project.ofBytes other config = Project.ofBytes bytes config := by
    rw [Project.ofBytes_eq, Project.ofBytes_eq, h, hOther]
    exact hProject
  rw [generateAll, generateAll, hBytes]

/-- A request that can be read can be read a second time without its files, and gives one byte string for
each of them, in their order: read by itself, or put together with the others to a set and read from
there, it is the file of the request. Nothing but these byte strings and the names that are asked for
counts for the answer. -/
theorem readings_agree {bytes : Bytes} {request : Request} (h : Request.decode bytes = .ok request) :
    ∃ contents, Request.rawFiles bytes = .ok contents ∧
      List.Forall₂ (fun content file => FileDecl.decode content = some file) contents request.files ∧
      FileSet.rawFiles (FileSet.encode contents) = some contents ∧
      FileSet.decode (FileSet.encode contents) = some request.files ∧
      ∀ other asked, Request.decode other = .ok asked → Request.rawFiles other = .ok contents →
        asked.filesToGenerate = request.filesToGenerate →
        ∀ {m : Type → Type} [Monad m] (store : FileStore m) (config : Config),
          generate store other config = generate store bytes config := by
  obtain ⟨contents, hRaw, hFiles⟩ := Request.rawFiles_of_decode h
  refine ⟨contents, hRaw, hFiles.imp fun _ _ => Request.NestedFile.decode, ?_,
    FileSet.decode_encode hFiles, ?_⟩
  · refine FileSet.rawFiles_encode ?_
    intro content hContent
    obtain ⟨file, -, hFile⟩ := exists_of_forall₂_right hFiles.flip content hContent
    exact hFile.1
  · intro other asked hOther hContents hNames m _ store config
    have hSame : Request.rawFiles other = Request.rawFiles bytes := hContents.trans hRaw.symm
    rw [generate, generate, generateAll_congr h hOther hNames hSame config]

/-- A request for a file `a` with a package that is named twice over. -/
def plainRequest : Bytes := [10, 1, 97, 122, 9, 10, 1, 97, 18, 1, 112, 18, 1, 113]

/-- The same request behind a parameter, a version of the front end and a group that no message knows. -/
def wrappedRequest : Bytes :=
  [18, 1, 120, 26, 2, 8, 3, 155, 6, 8, 1, 156, 6, 122, 9, 10, 1, 97, 18, 1, 112, 18, 1, 113, 10, 1, 97]

theorem readings_agree_wrappedRequest : plainRequest ≠ wrappedRequest ∧
    Request.decode plainRequest = .ok ⟨["a"], none, [{ name := "a", package := "q" }]⟩ ∧
    Request.decode wrappedRequest = .ok ⟨["a"], some "x", [{ name := "a", package := "q" }]⟩ ∧
    Request.rawFiles plainRequest = .ok [[10, 1, 97, 18, 1, 112, 18, 1, 113]] ∧
    Request.rawFiles wrappedRequest = .ok [[10, 1, 97, 18, 1, 112, 18, 1, 113]] ∧
    ∀ (disk : Disk) (config : Config),
      generate Disk.store wrappedRequest config disk = generate Disk.store plainRequest config disk := by
  have hPlain : Request.decode plainRequest = .ok ⟨["a"], none, [{ name := "a", package := "q" }]⟩ := rfl
  have hWrapped : Request.decode wrappedRequest
      = .ok ⟨["a"], some "x", [{ name := "a", package := "q" }]⟩ := rfl
  have hRaw : Request.rawFiles wrappedRequest = .ok [[10, 1, 97, 18, 1, 112, 18, 1, 113]] := rfl
  obtain ⟨contents, hContents, -, -, -, hSame⟩ := readings_agree hPlain
  obtain rfl : [[10, 1, 97, 18, 1, 112, 18, 1, 113]] = contents := Except.ok.inj hContents
  refine ⟨by decide, hPlain, hWrapped, hContents, hRaw, ?_⟩
  intro disk config
  exact congrFun (hSame wrappedRequest _ hWrapped hRaw rfl Disk.store config) disk

end ProtoBind
