import Dispatch.Ownership.Fencing
import Dispatch.Ownership.Exclusion
import Dispatch.Ownership.Succession
import Dispatch.Scheduling.Capacity
import Dispatch.Scheduling.Replay
import Dispatch.Scheduling.Rotation
import Dispatch.Files.Integrity
import Dispatch.Ownership.Isolation
import Dispatch.Admission.Desk
import Dispatch.Worker.ProjectIds
import Dispatch.Outcome.Renaming
import Dispatch.Ownership.Renewal
import Dispatch.Client.Following
import Dispatch.Scheduling.Stops
import Dispatch.Scheduling.Recheck
import Dispatch.Admission.Oversize
import Dispatch.Outcome.Publication
import Dispatch.Client.Reading
import Dispatch.Worker.Termination
import Dispatch.Files.Plans
import Dispatch.Outcome.Backoff
import Dispatch.Files.Gaps
import Dispatch.Scheduling.Diagnostics
