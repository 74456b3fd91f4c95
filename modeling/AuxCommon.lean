import AuxCommon.Job.Polling
import AuxCommon.Fairness.Capacity
import AuxCommon.Fairness.Conflict
import AuxCommon.Fairness.ReadyIndex
import AuxCommon.BufferedWrites.Admission
import AuxCommon.Schedule.Misfire
import AuxCommon.Schedule.Weekday
import AuxCommon.Codec.Operation
import AuxCommon.Cache.Singleflight
import AuxCommon.Cache.ColdReads
import AuxCommon.Cache.Flights
import AuxCommon.BufferedWrites.AdmissionLeases
import AuxCommon.BufferedWrites.Breaker
import AuxCommon.BufferedWrites.Fencing
import AuxCommon.BufferedWrites.InvocationCoordination
import AuxCommon.BufferedWrites.Digest
import AuxCommon.RequestCost.Settlement
import AuxCommon.S3Publication
import AuxCommon.WideLog.Completeness
import AuxCommon.Authz.ScopeMasks
import AuxCommon.Fairness.PermitReads
import AuxCommon.TenantHttp.Reserved
import AuxCommon.JwtDecode.Document
import AuxCommon.JwtDecode.TokenTime
import AuxCommon.Dpop.NumericDate
import AuxCommon.JobsHttp.Destinations
import AuxCommon.JobsHttp.Batch
import AuxCommon.Failure.Lease
import AuxCommon.WebAuthn.CborScanner
import AuxCommon.Admin.Redrive
import AuxCommon.Lifecycle.Payload
