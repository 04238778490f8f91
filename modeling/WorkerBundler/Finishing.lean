import WorkerBundler.Bundle
import WorkerBundler.Loading

/-!
# Chunks that plugins finish at the same time

`Bundle.finishChunks` lets the plugins finish one chunk after the other. They may as well work on
all chunks at the same time: on each chunk one plugin after the other, while the hooks that change
different chunks take turns request by request. A `Change` is how far the plugins have come with a
chunk, `ChangeOne` is one thing that can happen next to several chunks, and `ChangesEnd` is what
comes of them in the end: all their assets in order, or the error that there has been with one of
them.
-/

namespace WorkerBundler

variable {σ : Type}

/-- How far plugins have come with a chunk: the first of those that are left is asked about its code
next, the hook of one of them is under way, or there has been an error. -/
inductive Change (σ : Type) where
  | asking (chunk : RenderedChunk) (code : String) (maps : List SourceMap)
    (plugins : List (Plugin σ))
  | asked (chunk : RenderedChunk) (code : String) (maps : List SourceMap) (p : Plugin σ)
    (h : Hook σ (Option RenderOutput)) (rest : List (Plugin σ))
  | failed (e : BuildError)

namespace Change

/-- The rendered text of a chunk before the first plugin is asked about it. -/
def start (plugins : List (Plugin σ)) (names : FileNames) (c : Chunk) (text : String) : Change σ :=
  match c.toRendered names with
  | .error e => .failed e
  | .ok chunk => .asking chunk text [] plugins

/-- One step of the plugins with a chunk. -/
inductive Step (kind : Option SourceMapKind) :
    Change σ → Plugin.Rendering σ → Change σ → Plugin.Rendering σ → Prop
  | ask {chunk : RenderedChunk} {code : String} {maps : List SourceMap} {p : Plugin σ}
    {rest : List (Plugin σ)} {r : Plugin.Rendering σ} :
    Step kind (.asking chunk code maps (p :: rest)) r
      (.asked chunk code maps p (p.renderChunk ⟨code, chunk, kind⟩) rest) r
  | tick {chunk : RenderedChunk} {code : String} {maps : List SourceMap} {p : Plugin σ}
    {h h' : Hook σ (Option RenderOutput)} {rest : List (Plugin σ)} {r : Plugin.Rendering σ}
    {s : Session σ} :
    h.tick r.session = some (h', s) →
    Step kind (.asked chunk code maps p h rest) r (.asked chunk code maps p h' rest)
      { r with session := s }
  | unchanged {chunk : RenderedChunk} {code : String} {maps : List SourceMap} {p : Plugin σ}
    {rest : List (Plugin σ)} {r : Plugin.Rendering σ} :
    Step kind (.asked chunk code maps p (.answer (.ok none)) rest) r
      (.asking chunk code maps rest) r
  | changed {chunk : RenderedChunk} {code : String} {maps : List SourceMap} {p : Plugin σ}
    {output : RenderOutput} {rest : List (Plugin σ)} {r : Plugin.Rendering σ} :
    Step kind (.asked chunk code maps p (.answer (.ok (some output))) rest) r
      (.asking chunk output.code (maps ++ output.map.toList) rest)
      { r with warnings := r.warnings ++ p.brokenMap kind code output }
  | raised {chunk : RenderedChunk} {code : String} {maps : List SourceMap} {p : Plugin σ}
    {e : BuildError} {rest : List (Plugin σ)} {r : Plugin.Rendering σ} :
    Step kind (.asked chunk code maps p (.answer (.error e)) rest) r
      (.failed (e.addContext s!"render_chunk of {p.name}")) r

end Change

/-- Chunks that plugins are working on, each with the map of its rendered text. -/
abbrev Changes (σ : Type) := List (Option SourceMap × Change σ)

/-- The rendered chunks before the first plugin is asked about one of them. -/
def Change.startAll (plugins : List (Plugin σ)) (names : FileNames)
    (rendered : List (Chunk × String × Option SourceMap)) : Changes σ :=
  rendered.map fun x => (x.2.2, .start plugins names x.1 x.2.1)

/-- One of several chunks goes on. -/
inductive ChangeOne (kind : Option SourceMapKind) :
    Changes σ → Plugin.Rendering σ → Changes σ → Plugin.Rendering σ → Prop
  | step {before after : Changes σ} {map : Option SourceMap} {x x' : Change σ}
    {r r' : Plugin.Rendering σ} :
    x.Step kind r x' r' →
    ChangeOne kind (before ++ (map, x) :: after) r (before ++ (map, x') :: after) r'

/-- A chunk that no plugin is left to be asked about, with the map of its rendered text and the maps
that plugins have given. -/
structure FinishedChunk where
  first : Option SourceMap
  chunk : RenderedChunk
  code : String
  maps : List SourceMap

namespace FinishedChunk

/-- A finished chunk among those that plugins are working on. -/
def change (x : FinishedChunk) : Option SourceMap × Change σ :=
  (x.first, .asking x.chunk x.code x.maps [])

/-- The assets of a finished chunk. -/
def assets (kind : Option SourceMapKind) (x : FinishedChunk) : List Asset :=
  Bundle.assetsOf kind x.chunk.fileName x.code
    (x.first.bind fun m => SourceMap.collapse (m :: x.maps))

end FinishedChunk

/-- What comes of the chunks in the end. One chunk that cannot be finished ends the work on all. -/
inductive ChangesEnd (kind : Option SourceMapKind) :
    Changes σ → Except BuildError (List Asset) → Prop
  | failed {changes : Changes σ} {map : Option SourceMap} {e : BuildError} :
    (map, .failed e) ∈ changes → ChangesEnd kind changes (.error e)
  | finished (chunks : List FinishedChunk) :
    ChangesEnd kind (chunks.map FinishedChunk.change)
      (.ok (chunks.flatMap (FinishedChunk.assets kind)))

end WorkerBundler
