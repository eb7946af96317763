import ModalEditor.CommandLine.Run

/-!
# What a run can reach

The files that a run may read or write are known before it starts (`Options.paths`), and so are
the places that are passed on the way to them (`Path.way`).  A tree that agrees with the disk at
these places is as good for the run as the whole disk.
-/

namespace ModalEditor

namespace Path

/-- The places passed from `l` on along `names`. -/
def places (l : Location) : List String → List Location
  | [] => []
  | name :: names =>
    if name = "." then places l names
    else if name = ".." then places l.dropLast names
    else (l ++ [name]) :: places (l ++ [name]) names

/-- The places passed on the way along `p`. -/
def way (here : Location) (p : Path) : List Location :=
  places (if p.isAbsolute then [] else here) p.names

end Path

namespace CommandLine

/-- The files that a run with the given options may read or write. -/
def Options.paths (home : Path) (o : Options) : List Path :=
  o.config.getD (Config.homePath home) :: o.log.toList ++ o.file.toList ++
    (o.file.bind Path.temporary?).toList

namespace Request

/-- The places that a run may look at or change. -/
def places (here : Location) (home : Path) : Request → List Location
  | edit o => ((o.paths home).flatMap (Path.way here)).eraseDups
  | _ => []

/-- The text comes from the standard input. -/
def readsInput : Request → Bool
  | edit o => o.file.isNone
  | _ => false

end Request

end CommandLine

end ModalEditor
