import Mathlib.Data.List.Infix
import ZyrisDocker.Docker

namespace Docker

-- The containers which the daemon knows, the most recently created one first.
structure Engine where
  containers : List ContainerInfo
  names      : containers.map ContainerInfo.name |>.Nodup
  ids        : containers.map ContainerInfo.id |>.Nodup
  -- A comma separates the names of a container in a row of the listing.
  plain      : ∀ c ∈ containers, ',' ∉ c.name.toList
  running    : ∀ c ∈ containers, c.running ↔ c.state = "running"

-- What `{{json .}}` makes of a container. Columns which nothing reads are left out.
def row (c : ContainerInfo) : Json :=
  .obj [("ID", .str c.id), ("Image", .str c.image), ("Names", .str c.name), ("State", .str c.state),
    ("Status", .str c.status)]

-- The filter `name=selector` is a partial match.
def named (selector : String) (c : ContainerInfo) : Bool :=
  selector.toList <:+: c.name.toList

namespace Engine

variable (engine : Engine)

-- `docker ps -a --no-trunc --filter name=selector --format {{json .}}`.
def ps (selector : String) : Command.Output Lines :=
  .exited true (engine.containers.filter (named selector) |>.map fun c => some (row c)) ""

-- `docker ps -a --no-trunc --format {{json .}}`.
def psAll : Command.Output Lines :=
  .exited true (engine.containers.map fun c => some (row c)) ""

end Engine
end Docker
