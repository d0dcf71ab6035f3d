import Raincloud.Fs.NodeRun

/-!
# What `fs_rmnode` removes

`fs_rmnode` removes whatever `find_node` returns, if it has no children: also a mount point that
is only a prefix of the path, a node that skipped names lead to, and the root, if the path is
not spelled `/`.
-/

set_option linter.style.nameCheck false

namespace Raincloud

open Infra Infra.LinkStore

variable {e : FsEnv} {s s' : FsState} {n t : Ptr} {path : List UInt8}

/-- The node with exactly that path, up to repeated and trailing slashes. -/
def FsState.nodeAt (s : FsState) (path : List UInt8) : Option Ptr :=
  descend s.childNamed s.root (components path)

/-- A heap that hands out one block after another. -/
def nodeEnv : FsEnv := ⟨fun s => s.live.foldr max 0 + 1⟩

/-- No nodes. -/
def noNodes : FsState := ⟨fun _ => .null, fun _ => .null, fun _ => FileNode.zero, [], NULL⟩

end Raincloud
