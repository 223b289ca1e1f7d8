import ZyrisDocker.Heal.Theorems.Report
import ZyrisDocker.Heal.Theorems.Rearm
import ZyrisDocker.Heal.Theorems.Slot
import ZyrisDocker.Heal.Theorems.Watch
import ZyrisDocker.Runtime.Theorems.DialLoop
import ZyrisDocker.Runtime.Theorems.Backoff
import ZyrisDocker.Runtime.Theorems.TryRun
import ZyrisDocker.Runtime.Theorems.Volume
import ZyrisDocker.Runtime.Theorems.Save
import ZyrisDocker.Enroll.Theorems.Codes
import ZyrisDocker.Enroll.Theorems.Siblings
import ZyrisDocker.Enroll.Theorems.Solo
import ZyrisDocker.Enroll.Theorems.Exposed
import ZyrisDocker.Enroll.Theorems.Forget
import ZyrisDocker.Enroll.Theorems.Refused
import ZyrisDocker.Gate.Theorems.Escape
import ZyrisDocker.FileIo.Theorems.Frame
import ZyrisDocker.Startup.Theorems.Credential
import ZyrisDocker.Terminal.Theorems.Deadline
import ZyrisDocker.Docker.Theorems.Lookup
import ZyrisDocker.System.Theorems.Running
import ZyrisDocker.Terminal.Theorems.Output
import ZyrisDocker.Runtime.Theorems.Bearer
import ZyrisDocker.Runtime.Theorems.FileName
import ZyrisDocker.Gate.Theorems.Complete
import ZyrisDocker.FileIo.Theorems.Handed
import ZyrisDocker.Heal.Theorems.Cluster
import ZyrisDocker.Heal.Theorems.Task
import ZyrisDocker.Gate.Theorems.Normal
import ZyrisDocker.Runtime.Theorems.Slug
import ZyrisDocker.Terminal.Theorems.Timeout
import ZyrisDocker.Enroll.Theorems.Atomic
import ZyrisDocker.Enroll.Theorems.Log
import ZyrisDocker.Runtime.Theorems.Register
import ZyrisDocker.Terminal.Theorems.Complete
import ZyrisDocker.Heal.Theorems.Once
import ZyrisDocker.Startup.Theorems.Runtime
import ZyrisDocker.Startup.Theorems.Launch
import ZyrisDocker.Config.Theorems.RoundTrip
import ZyrisDocker.Heal.Theorems.Episodes
import ZyrisDocker.Monitor.Theorems.Lists
import ZyrisDocker.System.Theorems.Snapshot
import ZyrisDocker.Terminal.Theorems.Processes
